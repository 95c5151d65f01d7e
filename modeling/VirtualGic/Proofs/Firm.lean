/-
# Proofs.Firm — raising a line among hosts that do not change their mind

A host is asked whether a VCPU is up each time a line is raised on it, and may have changed
its mind since. `Host.Firm` says that it has not: there is a set of hosts that is never
left, whatever they are asked and told short of a crash, and all of them give the same
answers. What a `Host.Constant` says about latched upcalls does not change either.

Raising a line is then a function of the distributor alone, `Distributor.raised`. It changes
one descriptor and at most one list, and reads the registers for nothing but the priority.
-/
import VirtualGic.Proofs.Deliveries
import VirtualGic.Proofs.NoTrace

namespace VirtualGic

set_option autoImplicit false

/-! ## Hosts -/

/-- The hosts in `S` say of every VCPU whether it is `up`, and no question leads out of `S` and
no call but a crash. -/
structure Host.Firm {σ : Type} [Host σ] (up : Nat → Bool) (S : σ → Prop) : Prop where
  online : ∀ {h : σ} (v : Nat), S h → (Host.online h v).1 = up v ∧ S (Host.online h v).2
  running : ∀ {h : σ} (v : Nat), S h → S (Host.running h v).2
  currentCpu : ∀ {h : σ}, S h → S (Host.currentCpu h).2
  react : ∀ {h : σ} {c : Call}, c ≠ .crash → S h → S (Host.react h c)

/-- The hosts in `S` are firm, and say of every VCPU whether its upcall is `latched`. -/
structure Host.Constant {σ : Type} [Host σ] (up latched : Nat → Bool) (S : σ → Prop) : Prop
    extends Host.Firm up S where
  upcallPending : ∀ {h : σ} (v : Nat), S h →
    (Host.upcallPending h v).1 = latched v ∧ S (Host.upcallPending h v).2

theorem SteadyHost.constant (host : SteadyHost) :
    Host.Constant host.up.contains host.latched.contains (· = host) where
  online := by
    rintro _ v rfl
    exact ⟨rfl, rfl⟩
  running _ := id
  currentCpu := id
  react _ := id
  upcallPending := by
    rintro _ v rfl
    exact ⟨rfl, rfl⟩

namespace Machine

variable {σ : Type} [Host σ] {up : Nat → Bool} {S : σ → Prop} {m : Machine σ}

theorem firm_kick (firm : Host.Firm up S) (inside : S m.host) (v : Nat) :
    S (m.kick v).host := by
  have woken : S ((m.running v).2.call (.unblock v)).host :=
    firm.react nofun (firm.running v inside)
  have looked := firm.currentCpu woken
  unfold kick
  simp only
  split
  · exact woken
  · split
    · exact looked
    · exact firm.react nofun looked

theorem firm_notify (firm : Host.Firm up S) (inside : S m.host) (line holder : Nat) :
    S (m.notify line holder).host :=
  firm_kick (m := m.note (.lineInflight line holder)) firm inside holder

theorem firm_link (firm : Host.Firm up S) (inside : S m.host) (v : Nat) (ref : LineRef)
    (line : Nat) (priority : Byte) : S (m.link v ref line priority).host := by
  unfold link
  simp only
  split
  · exact firm.react nofun inside
  · exact inside

theorem firm_deliver (firm : Host.Firm up S) (inside : S m.host) (v : Nat)
    (ref : LineRef) : S (m.deliver [] v ref).host := by
  cases owner : (m.dist.descriptor ref).owner with
  | none =>
      have asked : S (m.online v).2.host := (firm.online v inside).2
      rw [deliver_of_free owner]
      split
      · exact firm_notify firm (firm_link firm asked v ref _ _) _ v
      · exact asked
  | some holder =>
      by_cases alive : (m.dist.vcpu? holder).isSome = true
      · rw [deliver_of_held owner alive]
        have latched : S (m.retrigger ref (m.dist.descriptor ref).line holder).host :=
          firm.react nofun inside
        exact firm_notify firm latched _ holder
      · rw [deliver_of_missing owner (by simpa using alive)]
        exact inside

theorem firm_inject (firm : Host.Firm up S) (inside : S m.host) (v line : Nat) :
    S (m.inject v line).2.host := by
  unfold inject injectAmid
  split
  · exact inside
  · exact firm_deliver firm inside v _

end Machine

/-! ## A line raised once -/

/-- The line after it was raised on VCPU `v`, which is up or not. -/
def Descriptor.raised (v : Nat) (up : Bool) (priority : Byte) (p : Descriptor) : Descriptor :=
  if p.isInflight then p.setQueued else if up then p.claim v priority else p

namespace Distributor

/-- Whether the line is queued when it is raised on a VCPU that is up or not. -/
def joins (d : Distributor) (up : Bool) (ref : LineRef) : Bool :=
  up && !(d.descriptor ref).isInflight

/-- The distributor after the line was raised on VCPU `v`, which is up or not. -/
def raised (d : Distributor) (v : Nat) (up : Bool) (ref : LineRef) : Distributor :=
  let priority := d.priorityOf v ref.number
  let told := d.updateLine ref (Descriptor.raised v up priority)
  if d.joins up ref then told.updateInflight v (·.insert ref.number priority) else told

variable {d : Distributor} {v : Nat} {up : Bool} {ref other : LineRef}

@[simp] theorem registers_raised (d : Distributor) (v : Nat) (up : Bool) (ref : LineRef) :
    (d.raised v up ref).registers = d.registers := by
  unfold raised
  simp only
  split <;> simp

theorem descriptor?_raised :
    (d.raised v up ref).descriptor? other =
      if ref = other then
        (d.descriptor? other).map (Descriptor.raised v up (d.priorityOf v ref.number))
      else d.descriptor? other := by
  unfold raised
  simp only
  split
  · rw [descriptor?_updateLine_updateInflight]
  · rw [descriptor?_updateLine]

theorem inflight?_raised (w : Nat) :
    (d.raised v up ref).inflight? w =
      if v = w ∧ d.joins up ref = true then
        (d.inflight? w).map (·.insert ref.number (d.priorityOf v ref.number))
      else d.inflight? w := by
  unfold raised
  simp only
  by_cases joins : d.joins up ref = true
  · rw [if_pos joins, inflight?_updateLine_updateInflight]
    simp only [joins, and_true]
  · rw [if_neg joins, inflight?_updateLine, if_neg fun both => joins both.2]

theorem joins_raised_ne (ne : ref ≠ other) (up' : Bool) :
    (d.raised v up ref).joins up' other = d.joins up' other := by
  rw [joins, descriptor, descriptor?_raised, if_neg ne, joins, descriptor]

theorem priorityOf_raised (w line : Nat) :
    (d.raised v up ref).priorityOf w line = d.priorityOf w line := by
  have same := registers_raised d v up ref
  simp only [registers, Prod.mk.injEq] at same
  exact priorityOf_of_rank (fun index => by rw [same.2.2]) line

/-- A VCPU finds under a number what it found there before the line was raised. -/
theorem resolve_raised_eq_ok_iff {w line : Nat} {target : LineRef} :
    (d.raised v up ref).resolve w line = .ok target ↔ d.resolve w line = .ok target := by
  have present : ((d.raised v up ref).vcpu? w).isSome = (d.vcpu? w).isSome := by
    rw [← inflight?_isSome, ← inflight?_isSome, inflight?_raised]
    split
    · rw [Option.isSome_map]
    · rfl
  have there : ((d.raised v up ref).descriptor? target).isSome =
      (d.descriptor? target).isSome := by
    rw [descriptor?_raised]
    split
    · rw [Option.isSome_map]
    · rfl
  rw [resolve_eq_ok_iff, resolve_eq_ok_iff, lineRef?_eq_some_iff, lineRef?_eq_some_iff, present,
    there]

/-- A change of one descriptor is told by what it does to it. -/
theorem updateLine_congr {p : Descriptor} {f g : Descriptor → Descriptor}
    (found : d.descriptor? ref = some p) (same : f p = g p) :
    d.updateLine ref f = d.updateLine ref g := by
  apply ext_of_delivery
  · rw [registers_updateLine, registers_updateLine]
  · intro target
    rw [descriptor?_updateLine, descriptor?_updateLine]
    split
    · rename_i here
      rw [← here, found, Option.map_some, Option.map_some, same]
    · rfl
  · intro w
    rw [inflight?_updateLine, inflight?_updateLine]

/-! ### By where the line is -/

section Raised

variable {p : Descriptor}

theorem raised_of_free (found : d.descriptor? ref = some p) (free : p.owner = none) :
    d.raised v true ref =
      (d.updateLine ref (Descriptor.claim v (d.priorityOf v ref.number))).updateInflight v
        (·.insert ref.number (d.priorityOf v ref.number)) := by
  have joins : d.joins true ref = true := by
    simp [Distributor.joins, descriptor_of_eq_some found, Descriptor.isInflight, free]
  have claims : p.raised v true (d.priorityOf v ref.number) =
      p.claim v (d.priorityOf v ref.number) := by
    simp [Descriptor.raised, Descriptor.isInflight, free]
  simp only [raised, joins, if_true, updateLine_congr found claims]

/-- A line that is raised on a VCPU that is not up is lost. -/
theorem raised_of_down (found : d.descriptor? ref = some p) (free : p.owner = none) :
    d.raised v false ref = d := by
  have same : p.raised v false (d.priorityOf v ref.number) = p := by
    simp [Descriptor.raised, Descriptor.isInflight, free]
  simp [raised, joins, updateLine_of_fixed found same]

theorem raised_of_held (found : d.descriptor? ref = some p) {holder : Nat}
    (held : p.owner = some holder) :
    d.raised v up ref = d.updateLine ref Descriptor.setQueued := by
  have stays : d.joins up ref = false := by
    simp [Distributor.joins, descriptor_of_eq_some found, Descriptor.isInflight, held]
  have again : p.raised v up (d.priorityOf v ref.number) = p.setQueued := by
    simp [Descriptor.raised, Descriptor.isInflight, held]
  simp [raised, stays, updateLine_congr found again]

end Raised

end Distributor

namespace Machine

variable {σ : Type} [Host σ] {m : Machine σ} {v : Nat} {ref : LineRef}

/-- What the host says about the VCPU when it is asked is all that a delivery depends on. -/
theorem dist_deliver (consistent : Consistent m.dist) (seen : ref.SeenBy v)
    (there : (m.dist.descriptor? ref).isSome = true) (present : (m.dist.vcpu? v).isSome = true) :
    (m.deliver [] v ref).dist = m.dist.raised v (m.online v).1 ref := by
  obtain ⟨p, found⟩ := Option.isSome_iff_exists.1 there
  have known := Distributor.descriptor_of_eq_some found
  cases owner : p.owner with
  | none =>
      have free : (m.dist.descriptor ref).owner = none := known ▸ owner
      cases up : (m.online v).1 with
      | true =>
          rw [dist_deliver_of_free seen there present free up, Distributor.raised_of_free found owner,
            Act.apply, known, consistent.numbered found]
      | false =>
          rw [Distributor.raised_of_down found owner]
          exact (deliver_of_offline free up).1
  | some holder =>
      have owned : (m.dist.descriptor ref).owner = some holder := known ▸ owner
      rw [dist_deliver_of_held owned (consistent.owned found owner).2.present,
        Distributor.raised_of_held found owner]

theorem dist_inject (consistent : Consistent m.dist) {line : Nat}
    (resolved : m.dist.resolve v line = .ok ref) :
    (m.inject v line).2.dist = m.dist.raised v (m.online v).1 ref := by
  obtain ⟨present, -, seen, there⟩ := Distributor.found_of_resolve resolved
  rw [inject_of_resolve resolved]
  exact dist_deliver consistent seen there present

theorem inject_of_refused {line : Nat}
    (refused : ∀ target, m.dist.resolve v line ≠ .ok target) : (m.inject v line).2 = m := by
  unfold inject injectAmid
  split
  · rfl
  · rename_i target resolved
    exact absurd resolved (refused target)

end Machine

end VirtualGic
