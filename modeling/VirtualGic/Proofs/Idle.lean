/-
# Proofs.Idle — a line that is not inflight starts over

When a line leaves its list, its holder and its flags are given up by separate writes, and
not by the same ones everywhere. `starts_over_run` says that nothing is forgotten: a line
that is not inflight is enabled or not, and nothing else, if the physical interface reports
only lines that are on lists.

So the next delivery of the line depends on nothing that went before. `Unshown` follows it
from there: as long as no report puts the line into a list register, whoever holds it while
it is enabled had it raised since. A raise is left out only for a line that is visible, and
the flag of an earlier delivery is not there to suppress one.
-/
import VirtualGic.Proofs.NoTrace
import VirtualGic.Proofs.Raised

namespace VirtualGic

set_option autoImplicit false

section Lines

variable {σ : Type} {m m' : Machine σ} {ref : LineRef} {n : Nat}

/-- The line is in no list register, and was raised since `n` calls had been made if it is
with a VCPU and enabled. -/
structure Unshown (n : Nat) (ref : LineRef) (m : Machine σ) : Prop where
  hidden : ∀ {p}, m.dist.descriptor? ref = some p → p.status.visible = false
  raised : ∀ {p v}, m.dist.descriptor? ref = some p → p.owner = some v →
    p.status.enabled = true → Call.raise v ref.number p.priority ∈ m.calls.drop n

namespace Unshown

/-- A line that is not held, or not enabled, had no need to be raised. -/
theorem of_unheld (hidden : ∀ p, m.dist.descriptor? ref = some p → p.status.visible = false)
    (unheld : ∀ p, m.dist.descriptor? ref = some p →
      p.isInflight = false ∨ p.status.enabled = false) : Unshown n ref m := by
  refine ⟨fun found => hidden _ found, ?_⟩
  intro p v found owner enabled
  rcases unheld p found with idle | disabled
  · simp [Descriptor.isInflight, owner] at idle
  · rw [enabled] at disabled
    cases disabled

theorem quiet {a : Act} (before : Unshown n ref m) (step : Step m a m') (quiet : a.Quiet) :
    Unshown n ref m' := by
  have less : ∀ {p'}, m'.dist.descriptor? ref = some p' →
      p'.Free ∨ ∃ p, m.dist.descriptor? ref = some p ∧ p'.AsksLess p := fun found =>
    quiet.free_or_asksLess step.allowed (step.dist ▸ found)
  refine ⟨?_, ?_⟩
  · intro p' found
    rcases less found with ⟨-, hidden⟩ | ⟨p, known, -, -, -, visible⟩
    · exact hidden
    · exact Bool.eq_false_iff.2 fun shown => Bool.eq_false_iff.1 (before.hidden known)
        (visible shown)
  · intro p' v found owner enabled
    rcases less found with ⟨free, -⟩ | ⟨p, known, owners, priorities, were, -⟩
    · rw [free] at owner
      cases owner
    · rw [priorities]
      exact mem_drop_of_prefix step.calls_extend
        (before.raised known (owners.symm.trans owner) (were enabled))

/-- An act on one line shows no other line, and the line itself only if it says so. -/
theorem change {a : Act} {target : LineRef} {f : Descriptor → Descriptor}
    (before : Unshown n ref m) (step : Step m a m') (change : a.change? = some (target, f))
    (hidden : target = ref → ∀ p, (f p).status.visible = p.status.visible)
    (raised : ∀ {p v}, target = ref → m.dist.descriptor? ref = some p → (f p).owner = some v →
      (f p).status.enabled = true →
        Call.raise v ref.number (f p).priority ∈ m'.calls.drop n) : Unshown n ref m' := by
  refine ⟨?_, ?_⟩
  · intro p' found
    rw [step.descriptor? change] at found
    split at found
    · rename_i same
      obtain ⟨p, known, rfl⟩ := Option.map_eq_some_iff.1 found
      rw [hidden same]
      exact before.hidden known
    · exact before.hidden found
  · intro p' v found owner enabled
    rw [step.descriptor? change] at found
    split at found
    · rename_i same
      obtain ⟨p, known, rfl⟩ := Option.map_eq_some_iff.1 found
      exact raised same known owner enabled
    · exact mem_drop_of_prefix step.calls_extend (before.raised found owner enabled)

/-- Every act but the report that the line is visible. -/
theorem step {a : Act} (before : Unshown n ref m) (step : Step m a m')
    (consistent : Consistent m.dist) (early : n ≤ m.calls.length)
    (unreported : a ≠ .touch ref (.visible true)) : Unshown n ref m' := by
  cases a with
  | enable target =>
      refine before.change step rfl (fun _ _ => rfl) ?_
      rintro p v rfl found owner -
      have made := Act.raise_of_enable consistent found owner (before.hidden found)
      exact step.mem_calls early made
  | link w target priority =>
      refine before.change step rfl (fun _ _ => rfl) ?_
      rintro p v rfl found owner enabled
      obtain rfl : w = v := Option.some.inj owner
      exact step.mem_calls early (Act.raise_of_link consistent w priority found enabled)
  | touch target report =>
      by_cases loud : report = .visible true
      · subst loud
        have other : target ≠ ref := fun same => unreported (same ▸ rfl)
        exact before.change step rfl (fun same => absurd same other)
          (fun same => absurd same other)
      · exact before.quiet step loud
  | _ => exact before.quiet step (by trivial)

end Unshown

end Lines

/-! ## Over operations -/

/-- A line enters a list register only by a report about it. -/
theorem Operation.eq_setVisible_of_takes {d : Distributor} {operation : Operation} {ref : LineRef}
    (takes : operation.Takes d (.touch ref (.visible true))) :
    ∃ w, ref.SeenBy w ∧ operation = .setVisible w ref.number true := by
  obtain ⟨w, line, rfl⟩ := setVisible_of_takes takes
  obtain ⟨other, resolved, same⟩ := takes
  cases same
  obtain ⟨-, rfl, seen, -⟩ := Distributor.found_of_resolve resolved
  exact ⟨w, seen, rfl⟩

namespace Unshown

variable {σ : Type} [Host σ] {m : Machine σ} {ref : LineRef} {n : Nat}

theorem perform {operation : Operation} (before : Unshown n ref m) (consistent : Consistent m.dist)
    (early : n ≤ m.calls.length)
    (unreported : ∀ w, ref.SeenBy w → operation ≠ .setVisible w ref.number true) :
    Unshown n ref (m.perform operation).2 := by
  refine ((m.perform_steps operation).kept (P := fun s => Consistent s.dist ∧
    n ≤ s.calls.length ∧ Unshown n ref s) ?_ ⟨consistent, early, before⟩).2.2
  rintro s a s' takes step ⟨consistent, early, before⟩
  refine ⟨step.dist ▸ consistent.apply step.allowed,
    Nat.le_trans early step.calls_extend.length_le, before.step step consistent early ?_⟩
  rintro rfl
  obtain ⟨w, seen, same⟩ := Operation.eq_setVisible_of_takes takes
  exact unreported w seen same

theorem run {operations : List Operation} (before : Unshown n ref m)
    (consistent : Consistent m.dist) (early : n ≤ m.calls.length)
    (unreported : ∀ w, ref.SeenBy w → .setVisible w ref.number true ∉ operations) :
    Unshown n ref (m.run operations) := by
  induction operations generalizing m with
  | nil => exact before
  | cons operation rest ih =>
      refine ih (before.perform consistent early ?_) (consistent.perform operation) ?_ ?_
      · rintro w seen rfl
        exact unreported w seen List.mem_cons_self
      · exact Nat.le_trans early (m.perform_steps operation).calls_extend.length_le
      · exact fun w seen member => unreported w seen (List.mem_cons_of_mem operation member)

end Unshown

/-! ## Every history -/

/-- A report that a line is visible neither enables it nor gives it to somebody. -/
theorem Machine.held_enabled_of_setVisible {σ : Type} [Host σ] {m : Machine σ} {v line : Nat}
    {ref : LineRef} {q : Descriptor}
    (found : (m.perform (.setVisible v line true)).2.dist.descriptor? ref = some q) :
    ∃ p, m.dist.descriptor? ref = some p ∧ p.owner = q.owner ∧
      p.status.enabled = q.status.enabled := by
  have found : (m.updateStatus (Report.visible true).apply v line).2.dist.descriptor? ref =
      some q := found
  rcases m.updateStatus_cases (.visible true) v line with still | ⟨target, -, step⟩
  · rw [still] at found
    exact ⟨q, found, rfl, rfl⟩
  · rw [step.descriptor? rfl] at found
    split at found
    · obtain ⟨p, known, rfl⟩ := Option.map_eq_some_iff.1 found
      exact ⟨p, known, rfl, rfl⟩
    · exact ⟨q, found, rfl, rfl⟩

/-- What a line that is not inflight starts from. -/
structure Machine.StartsOver {σ : Type} [Host σ] (m : Machine σ) : Prop where
  /-- It has no delivery state. -/
  idle : ∀ {ref p}, m.dist.descriptor? ref = some p → p.isInflight = false →
    p.status.queued = false ∧ p.status.visible = false ∧ p.status.active = false
  /-- Raised on a VCPU that is online it is queued there, and beyond that enabled or not. -/
  claimed : ∀ {v line ref p}, m.dist.resolve v line = .ok ref →
    m.dist.descriptor? ref = some p → p.isInflight = false → (m.online v).1 = true →
    (m.perform (.inject v line)).2.dist.descriptor? ref = some { p with
      owner := some v
      priority := m.dist.priorityOf v line
      status := { enabled := p.status.enabled, queued := true } }
  /-- From then on, if it is not reported visible, whichever operation makes it one that is
  held and enabled raises it. -/
  raised : ∀ {ref p}, m.dist.descriptor? ref = some p → p.isInflight = false →
    ∀ {operations operation v q},
      (∀ w, ref.SeenBy w → .setVisible w ref.number true ∉ operations) →
      (∀ r, (m.run operations).dist.descriptor? ref = some r →
        r.isInflight = false ∨ r.status.enabled = false) →
      ((m.run operations).perform operation).2.dist.descriptor? ref = some q →
      q.owner = some v → q.status.enabled = true →
        Call.raise v ref.number q.priority ∈
          ((m.run operations).perform operation).2.calls.drop (m.run operations).calls.length

namespace Machine

variable {σ : Type} [Host σ]

/-- An idle line is claimed by the VCPU it is raised on, and keeps what it had but for that. -/
theorem claimed_of_settled {m : Machine σ} (settled : m.dist.Settled)
    (consistent : Consistent m.dist) {v line : Nat} {ref : LineRef} {p : Descriptor}
    (resolved : m.dist.resolve v line = .ok ref) (found : m.dist.descriptor? ref = some p)
    (free : p.owner = none) (up : (m.online v).1 = true) :
    (m.perform (.inject v line)).2.dist.descriptor? ref = some { p with
      owner := some v
      priority := m.dist.priorityOf v line
      status := { enabled := p.status.enabled, queued := true } } := by
  have known := Distributor.descriptor_of_eq_some found
  obtain ⟨-, number, -, -⟩ := Distributor.found_of_resolve resolved
  have named : (m.dist.descriptor ref).line = line := by
    rw [known, consistent.numbered found, number]
  have linked := dist_inject_of_free resolved (known ▸ free) up
  rw [named] at linked
  have outcome : (m.perform (.inject v line)).2 = (m.inject v line).2 := rfl
  rw [outcome, linked, Act.descriptor?_apply_of_change? rfl, if_pos rfl, found, Option.map_some]
  rw [Descriptor.claim, ← settled ref p found free]
  rfl

/-- A line that nobody reported visible since it was idle is raised by the operation that
makes it one that is held and enabled. -/
theorem raised_of_settled {m : Machine σ} (settled : m.dist.Settled)
    (consistent : Consistent m.dist) {ref : LineRef} {p : Descriptor}
    (found : m.dist.descriptor? ref = some p) (free : p.owner = none)
    {operations : List Operation} {operation : Operation} {v : Nat} {q : Descriptor}
    (unreported : ∀ w, ref.SeenBy w → .setVisible w ref.number true ∉ operations)
    (before : ∀ r, (m.run operations).dist.descriptor? ref = some r →
      r.isInflight = false ∨ r.status.enabled = false)
    (after : ((m.run operations).perform operation).2.dist.descriptor? ref = some q)
    (owner : q.owner = some v) (enabled : q.status.enabled = true) :
    Call.raise v ref.number q.priority ∈
      ((m.run operations).perform operation).2.calls.drop (m.run operations).calls.length := by
  have idle : Unshown m.calls.length ref m := by
    refine .of_unheld ?_ ?_
    · intro p' found'
      obtain rfl := Option.some.inj (found.symm.trans found')
      rw [← settled ref p found free]
      rfl
    · intro p' found'
      obtain rfl := Option.some.inj (found.symm.trans found')
      exact .inl (by simp [Descriptor.isInflight, free])
  have unshown := idle.run consistent (Nat.le_refl _) unreported
  have ready : Unshown (m.run operations).calls.length ref (m.run operations) :=
    .of_unheld (fun _ known => unshown.hidden known) before
  by_cases reports : ∃ w line, operation = .setVisible w line true
  · obtain ⟨w, line, rfl⟩ := reports
    obtain ⟨r, known, owners, flags⟩ := held_enabled_of_setVisible after
    rcases before r known with free | disabled
    · simp [Descriptor.isInflight, owners, owner] at free
    · rw [flags, enabled] at disabled
      cases disabled
  · have others : ∀ w, ref.SeenBy w → operation ≠ .setVisible w ref.number true :=
      fun w _ same => reports ⟨w, _, same⟩
    have done := ready.perform (consistent.run operations) (Nat.le_refl _) others
    exact done.raised after owner enabled

/-- After every history in which only lines on lists are reported visible or active, a line
that is not inflight has no delivery state, and its next delivery starts over. -/
theorem starts_over_run {config : Config} {host : σ} {m : Machine σ}
    (started : Machine.start config host = .ok m) {operations : List Operation}
    (honest : m.Honest operations) : (m.run operations).StartsOver := by
  have settled := settled_run started honest
  have consistent := consistent_run started operations
  have unowned : ∀ {p : Descriptor}, p.isInflight = false → p.owner = none := fun free => by
    simpa [Descriptor.isInflight] using free
  refine ⟨?_, ?_, ?_⟩
  · intro ref p found free
    rw [← settled ref p found (unowned free)]
    exact ⟨rfl, rfl, rfl⟩
  · intro v line ref p resolved found free up
    exact claimed_of_settled settled consistent resolved found (unowned free) up
  · intro ref p found free operations operation v q unreported before after owner enabled
    exact raised_of_settled settled consistent found (unowned free) unreported before after owner
      enabled

/-- A shared line is shown and acknowledged on VCPU 1, and disabled by VCPU 0. It is raised
again while disabled, and enabling it raises it on VCPU 0. -/
theorem starts_over_run_disabled :
    let m : Machine SteadyHost := .fresh (.forHardware 2 64) { up := [0, 1] }
    let s := m.run [.initVcpu 0, .initVcpu 1, .enableLines 1 0x100 1, .inject 1 40,
      .setVisible 1 40 true, .setActive 1 40 true, .disableLines 0 0x100 1]
    let t := s.run [.inject 0 40]
    s.StartsOver ∧
      (t.dist.line? 0 40).map (·.status) = some { enabled := false, queued := true } ∧
      Call.raise 0 40 0 ∈ (t.perform (.enableLines 1 0x100 1)).2.calls.drop t.calls.length := by
  intro m s t
  have started : Machine.start (.forHardware 2 64) ({ up := [0, 1] } : SteadyHost) = .ok m := rfl
  have honest : m.Honest [.initVcpu 0, .initVcpu 1, .enableLines 1 0x100 1, .inject 1 40,
      .setVisible 1 40 true, .setActive 1 40 true, .disableLines 0 0x100 1] := by
    simp only [Honest, Operation.Misreports, not_false_eq_true, true_and, and_true]
    decide +kernel
  exact ⟨starts_over_run started honest, by decide +kernel, by decide +kernel⟩

end Machine

end VirtualGic
