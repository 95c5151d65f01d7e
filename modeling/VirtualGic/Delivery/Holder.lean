/-
# Delivery.Holder — finding the VCPU whose list a line is on

The inflight list of a VCPU and the owner of every line on it are guarded by one
lock, the list lock of that VCPU. An operation on a line must therefore take the lock
of the line's owner, and the owner is only known before the lock is taken. `lockHolder`
reads the owner, takes that VCPU's lock, and starts again if the owner is another one by
then. While nobody owns the line, the caller's own VCPU stands in.

What other VCPUs do between reading the owner and taking the lock is a list of
`Change`s, one for each round; the empty list is a call that nobody interferes with.
The recursion is on that list: the round after the last change succeeds.
-/
import VirtualGic.Machine.Basic

namespace VirtualGic

set_option autoImplicit false

/-- What other VCPUs do between reading an owner and taking its lock. -/
abbrev Change (σ : Type) : Type := Machine σ → Machine σ

/-- The VCPU under whose list lock the line is to be handled: its owner, or `fallback`
while it has none. An owner without state is an error. -/
def Distributor.holder (d : Distributor) (fallback : Nat) (ref : LineRef) : Except Nat Nat :=
  match (d.descriptor ref).owner with
  | none => .ok fallback
  | some owner => if (d.vcpu? owner).isSome then .ok owner else .error owner

theorem Distributor.holder_of_owner_none {d : Distributor} {ref : LineRef}
    (free : (d.descriptor ref).owner = none) (fallback : Nat) :
    d.holder fallback ref = .ok fallback := by
  simp [holder, free]

namespace Machine

variable {σ : Type}

/-- Take the list lock of the VCPU that holds the line, and keep trying while its owner
changes. Nothing is returned for an owner without state. -/
def lockHolder (fallback : Nat) (ref : LineRef) :
    List (Change σ) → Machine σ → Option Nat × Machine σ
  | [], m =>
      match m.dist.holder fallback ref with
      | .error owner => (none, m.note (.ownerMissing (m.dist.descriptor ref).line owner))
      | .ok holder => (some holder, m)
  | change :: changes, m =>
      match m.dist.holder fallback ref with
      | .error owner => (none, m.note (.ownerMissing (m.dist.descriptor ref).line owner))
      | .ok holder =>
          if ((change m).dist.descriptor ref).owner = (m.dist.descriptor ref).owner then
            (some holder, change m)
          else lockHolder fallback ref changes (change m)

theorem lockHolder_of_holder {m : Machine σ} {fallback holder : Nat} {ref : LineRef}
    (found : m.dist.holder fallback ref = .ok holder) :
    m.lockHolder fallback ref [] = (some holder, m) := by
  simp [lockHolder, found]

end Machine

end VirtualGic
