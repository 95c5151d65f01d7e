/-
# Lifecycle — making and releasing distributors and VCPU state

A distributor is made from an accepted configuration, without VCPU state. The state of
a VCPU comes and goes while the distributor lives; when it goes, the shared lines
inflight on the VCPU are handed back first, so that they can be delivered elsewhere.
-/
import VirtualGic.Delivery.Completion

namespace VirtualGic

set_option autoImplicit false

namespace Machine

variable {σ : Type}

/-- The distributor of a new domain, among the given collaborators. -/
def start (config : Config) (host : σ) : Result (Machine σ) :=
  match config.validate with
  | .error failure => .error failure
  | .ok () =>
      let m : Machine σ := { dist := Distributor.create config, host }
      .ok (m.note (.created config.vcpus config.spis config.base))

/-- The end of a distributor, which is noted and changes nothing else. -/
def discard (m : Machine σ) : Machine σ :=
  m.note (.discarded m.dist.config.vcpus)

/-- Make the state of VCPU `v`, with room for every line on its list. -/
def initVcpu (v : Nat) (m : Machine σ) : Result Unit × Machine σ :=
  match m.dist.config.lineCount with
  | .error fault => (.error (.fault fault), m)
  | .ok lines =>
      match m.dist.vcpus[v]? with
      | none => (.error (.refused (.invalidVcpu v)), m)
      | some (some _) => (.error (.refused (.vcpuAlreadyInitialized v)), m)
      | some none =>
          match Vcpu.create v lines with
          | .error fault => (.error (.fault fault), m)
          | .ok vcpu => (.ok (), (m.modify (·.setVcpu v (some vcpu))).note (.vcpuAllocated v))

/-- Release the state of VCPU `v`, after handing back what is inflight on it. -/
def freeVcpu [Host σ] (v : Nat) (m : Machine σ) : Result Unit × Machine σ :=
  match m.clearPending v with
  | (.error failure, m) => (.error failure, m)
  | (.ok (), m) => (.ok (), (m.modify (·.setVcpu v none)).note (.vcpuReleased v))

end Machine

end VirtualGic
