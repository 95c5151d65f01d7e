/-
# Delivery.Completion — what becomes of a line after it is raised

The physical interface reports when a line enters or leaves a list register and when
the guest acknowledges it, and the guest completes it in the end. A line raised again
before its completion stays inflight if it is enabled. Lines can also be dropped all at
once for a VCPU, and be backed by physical interrupts.
-/
import VirtualGic.Machine.Basic

namespace VirtualGic

set_option autoImplicit false

namespace Distributor

/-- The lines inflight on VCPU `v`, in delivery order. -/
def inflightLines (d : Distributor) (v : Nat) : Except Error (List Nat) :=
  (d.requireVcpu v).map (·.inflight.lines)

/-- The flags of `line` as VCPU `v` sees it. -/
def statusOf (d : Distributor) (v line : Nat) : Except Error Status :=
  (d.resolve v line).map fun ref => (d.descriptor ref).status

/-- Give back the line of an entry of `v`, and drop its delivery state. -/
def handBack (v : Nat) (d : Distributor) (entry : Entry) : Distributor :=
  match d.lineRef? v entry.line with
  | none => d
  | some ref => d.updateLine ref fun p => (p.release v).settle

/-- Empty the list of VCPU `v` and give back every line on it. -/
def dropInflight (d : Distributor) (v : Nat) : Distributor :=
  match d.inflight? v with
  | none => d
  | some list => list.drain.1.foldl (handBack v) (d.updateInflight v (·.drain.2))

end Distributor

namespace Machine

variable {σ : Type}

/-- Change the descriptor of `line` as VCPU `v` sees it. -/
def updateStatus (f : Descriptor → Descriptor) (v line : Nat) (m : Machine σ) :
    Result Unit × Machine σ :=
  match m.dist.resolve v line with
  | .error error => (.error (.refused error), m)
  | .ok ref => (.ok (), m.modify (·.updateLine ref f))

/-- Record that `line` entered or left a list register of VCPU `v`. -/
def setVisible (v line : Nat) (visible : Bool) (m : Machine σ) : Result Unit × Machine σ :=
  m.updateStatus (Descriptor.setVisible visible) v line

/-- Record that the guest acknowledged or deactivated `line`. -/
def setActive (v line : Nat) (active : Bool) (m : Machine σ) : Result Unit × Machine σ :=
  m.updateStatus (Descriptor.setActive active) v line

/-- Back `line` by the physical interrupt `irq`. -/
def routePhysical (v line irq : Nat) (m : Machine σ) : Result Unit × Machine σ :=
  match m.dist.resolve v line with
  | .error error => (.error (.refused error), m)
  | .ok ref =>
      (.ok (), (m.modify (·.updateLine ref (Descriptor.route irq))).note (.lineRouted line irq))

/-- Make `line` purely virtual, and tell what backed it. -/
def unroutePhysical (v line : Nat) (m : Machine σ) : Result (Option Nat) × Machine σ :=
  match m.dist.resolve v line with
  | .error error => (.error (.refused error), m)
  | .ok ref =>
      (.ok (m.dist.descriptor ref).phys, m.modify (·.updateLine ref Descriptor.unroute))

variable [Host σ]

/-- Drop everything inflight on VCPU `v`. -/
def clearPending (v : Nat) (m : Machine σ) : Result Unit × Machine σ :=
  match m.dist.requireVcpu v with
  | .error error => (.error (.refused error), m)
  | .ok _ =>
      (.ok (), ((m.modify (·.dropInflight v)).call (.clear v)).note (.pendingCleared v))

/-- The guest completes `line` on VCPU `v`. The answer is whether the line stays
inflight, because it was raised again and is enabled. -/
def retire (v line : Nat) (m : Machine σ) : Result Bool × Machine σ :=
  match m.dist.resolve v line with
  | .error error => (.error (.refused error), m)
  | .ok ref =>
      let completed := m.modify (·.updateLine ref Descriptor.complete)
      let now := completed.dist.descriptor ref
      if now.owner ≠ some v then (.ok false, completed)
      else if now.status.queued && now.status.enabled then
        (.ok true, completed.call (.raise v line now.priority))
      else
        (.ok false, completed.modify fun d =>
          (d.updateLine ref fun p => (p.release v).settle).updateInflight v (·.erase line))

end Machine

end VirtualGic
