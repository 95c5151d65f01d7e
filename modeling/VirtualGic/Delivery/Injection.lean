/-
# Delivery.Injection — raising a line on a VCPU

A line that is raised while inflight is raised again where it is. Any other line is
claimed by the VCPU it is raised on, if that VCPU is online: the priority of the moment
is kept, the line is passed to the physical interface if the guest has enabled it, and
it is queued on the VCPU's list. Whoever holds the line afterwards is woken. A line
raised on an offline VCPU is dropped.

A shared line raised without a VCPU goes to the first VCPU of its target mask that is
online, or to VCPU 0.
-/
import VirtualGic.Bits.SetBits
import VirtualGic.Delivery.Holder

namespace VirtualGic

set_option autoImplicit false

namespace Machine

variable {σ : Type} [Host σ]

/-- Wake a VCPU, and make the processor it runs on look again if that is another
one. -/
def kick (m : Machine σ) (v : Nat) : Machine σ :=
  let asked := m.running v
  let woken := asked.2.call (.unblock v)
  match asked.1 with
  | none => woken
  | some cpu =>
      let here := woken.currentCpu
      if cpu = here.1 then here.2 else here.2.call (.check cpu)

/-- Tell the VCPU that holds a line that there is something to do. -/
def notify (m : Machine σ) (line holder : Nat) : Machine σ :=
  (m.note (.lineInflight line holder)).kick holder

/-- Raise a line again on the VCPU that holds it. -/
def retrigger (m : Machine σ) (ref : LineRef) (line holder : Nat) : Machine σ :=
  (m.modify (·.updateLine ref Descriptor.setQueued)).call (.raiseInflight holder line)

/-- Claim a free line for `v` and queue it. -/
def link (m : Machine σ) (v : Nat) (ref : LineRef) (line : Nat) (priority : Byte) : Machine σ :=
  let claimed := m.modify (·.updateLine ref (Descriptor.claim v priority))
  let raised :=
    if (claimed.dist.descriptor ref).status.enabled then claimed.call (.raise v line priority)
    else claimed
  raised.modify (·.updateInflight v (·.insert line priority))

/-- Raise the line `ref` on VCPU `v`, or again on the VCPU that holds it. -/
def deliver (m : Machine σ) (changes : List (Change σ)) (v : Nat) (ref : LineRef) : Machine σ :=
  let line := (m.dist.descriptor ref).line
  let priority := m.dist.priorityOf v line
  match m.lockHolder v ref changes with
  | (none, m) => m
  | (some holder, m) =>
      if (m.dist.descriptor ref).isInflight then (m.retrigger ref line holder).notify line holder
      else
        let asked := m.online v
        if asked.1 then (asked.2.link v ref line priority).notify line v
        else asked.2.note (.lineDropped line v)

/-- Raise `line` on VCPU `v` while other VCPUs make the given changes. -/
def injectAmid (changes : List (Change σ)) (v line : Nat) (m : Machine σ) :
    Result Unit × Machine σ :=
  match m.dist.resolve v line with
  | .error error => (.error (.refused error), m)
  | .ok ref => (.ok (), m.deliver changes v ref)

/-- Raise `line` on VCPU `v`. -/
def inject (v line : Nat) (m : Machine σ) : Result Unit × Machine σ :=
  m.injectAmid [] v line

/-- The first of some VCPUs that has state and is online. -/
def firstOnline (m : Machine σ) : List Nat → Option Nat × Machine σ
  | [] => (none, m)
  | v :: rest =>
      match m.dist.vcpu? v with
      | none => m.firstOnline rest
      | some _ =>
          let asked := m.online v
          if asked.1 then (some v, asked.2) else asked.2.firstOnline rest

/-- Raise the shared line `line` on the first online VCPU it targets. -/
def injectSpi (line : Nat) (m : Machine σ) : Result Unit × Machine σ :=
  if line < linesPerRank then (.error (.refused (.invalidLine line)), m)
  else
    match m.dist.requireVcpu 0 with
    | .error error => (.error (.refused error), m)
    | .ok _ =>
        match m.dist.rank? 0 (rankOfLine line) with
        | none => (.error (.refused (.invalidLine line)), m)
        | some rank =>
            match rank.target? (line % linesPerRank) with
            | none => (.error (.fault .indexOutOfRange), m)
            | some mask =>
                let found := m.firstOnline (SetBits.mk (mask.setWidth 32)).toList
                found.2.inject (found.1.getD 0) line

end Machine

end VirtualGic
