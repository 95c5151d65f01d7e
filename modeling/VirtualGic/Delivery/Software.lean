/-
# Delivery.Software — interrupts that a guest sends to its VCPUs

A value written to the software-interrupt register names one of the sixteen software
lines and its targets. The line is raised on every target in ascending order; targets
without state and offline ones are reported and passed over, and so is a value whose
filter has no meaning. The write itself is always accepted.
-/
import VirtualGic.Delivery.Injection
import VirtualGic.Register.Contents

namespace VirtualGic

set_option autoImplicit false

namespace Machine

variable {σ : Type} [Host σ]

/-- Those of some VCPUs that are online. -/
def onlineAmong (m : Machine σ) : List Nat → List Nat × Machine σ
  | [] => ([], m)
  | v :: rest =>
      let asked := m.online v
      let others := asked.2.onlineAmong rest
      (if asked.1 then v :: others.1 else others.1, others.2)

/-- The targets that `value` selects when VCPU `v` writes it. -/
def softwareTargets (m : Machine σ) (v : Nat) (value : Word) :
    TargetFilter → List Nat × Machine σ
  | .list => ((SetBits.mk (SoftwareInterrupt.targetList.read value)).toList, m)
  | .allButSelf => m.onlineAmong (m.dist.present.filter (· != v))
  | .selfOnly => ([v], m)

/-- Raise the software line of `value` on one target, or report the target. -/
def sendTo (v : Nat) (value : Word) (m : Machine σ) (target : Nat) : Machine σ :=
  match m.dist.vcpu? target with
  | none => m.note (.targetBad value v target)
  | some _ =>
      let asked := m.online target
      if asked.1 then
        let line := (SoftwareInterrupt.line.read value).toNat
        match asked.2.dist.lineRef? target line with
        | none => asked.2
        | some ref => (asked.2.note (.softwareInterrupt line v target)).deliver [] target ref
      else asked.2.note (.targetBad value v target)

/-- Raise the software interrupt of `value` for a VCPU `v` that has state. There is room
for as many targets as a mask can name. -/
def sendSoftware (v : Nat) (value : Word) (m : Machine σ) : Result Unit × Machine σ :=
  match SoftwareInterrupt.filter? value with
  | none => (.ok (), m.note (.filterInvalid v value))
  | some choice =>
      let selected := m.softwareTargets v value choice
      if maxVcpus < selected.1.length then (.error (.fault .capacityExceeded), selected.2)
      else (.ok (), selected.1.foldl (sendTo v value) selected.2)

/-- Raise the software interrupt of `value`, written by VCPU `v`. -/
def dispatchSoftware (v : Nat) (value : Word) (m : Machine σ) : Result Unit × Machine σ :=
  match m.dist.requireVcpu v with
  | .error error => (.error (.refused error), m)
  | .ok _ => m.sendSoftware v value

end Machine

end VirtualGic
