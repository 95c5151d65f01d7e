/-
# Proofs.Raised — no enabled line on a list is forgotten

A line that is enabled and on a list has to reach the physical interface, or its device
hangs. `raised_of_enabled` says that it has: since the line was taken up, that is since
the operation that put it on the list or the last completion that kept it there, it was
raised at the priority of its entry.

`Watched` is a machine together with the time at which each line was taken up, counted
in calls. Of the physical interface one thing is assumed (`Honours`): it reports a line
visible or active only if the line is on the list and was raised since it was taken up.

A completion kept a line if the line is on the list afterwards; `onList_retire_iff` says
that this is what its answer tells.

Three invariants carry the result. `Shown` says that a line in somebody's hands that is
enabled or visible was raised, and that a line in nobody's hands is not visible.
`raises_listed` says that an operation raises lines only as their entries say. Both are
kept act by act; the third, `Sound`, puts them together between operations.
-/
import VirtualGic.Proofs.Agreement

namespace VirtualGic

set_option autoImplicit false

/-! ## Lines are raised as their entries say -/

section Acts

variable {a : Act} {d : Distributor}

/-- A line is raised at the priority of its entry. -/
theorem Act.lists_of_raise (allowed : a.Allowed d) (consistent : Consistent d) {v line : Nat}
    {priority : Byte} (member : Event.call (.raise v line priority) ∈ a.events d) :
    (a.apply d).Lists v ⟨line, priority⟩ := by
  cases a with
  | call made =>
      rw [events, List.mem_singleton, Event.call.injEq] at member
      rw [← member] at allowed
      cases allowed
  | enable ref =>
      obtain ⟨p, found⟩ := Option.isSome_iff_exists.1 allowed
      rw [events, shows, Distributor.descriptor_of_eq_some found] at member
      split at member
      · cases member
      · rename_i owner owned
        split at member
        · simp only [List.mem_singleton, Event.call.injEq, Call.raise.injEq] at member
          obtain ⟨rfl, rfl, rfl⟩ := member
          rw [apply, Distributor.lists_of_inflight? (Distributor.inflight?_updateLine ..),
            consistent.numbered found]
          exact (consistent.owned found owned).2
        · cases member
  | link w ref highest =>
      obtain ⟨there, -, present, -, -⟩ := allowed
      rw [events] at member
      split at member
      · simp only [List.mem_singleton, Event.call.injEq, Call.raise.injEq] at member
        obtain ⟨rfl, rfl, rfl⟩ := member
        exact (lists_link_iff ref priority present).2 (.inl ⟨rfl, rfl⟩)
      · cases member
  | keep w ref =>
      have owned := allowed.1
      simp only [events, List.mem_singleton, Event.call.injEq, Call.raise.injEq] at member
      obtain ⟨rfl, rfl, rfl⟩ := member
      rw [apply, Distributor.lists_of_inflight? (Distributor.inflight?_updateLine ..)]
      exact (consistent.owned (Distributor.descriptor?_of_owner owned) owned).2
  | _ => simp [events] at member

/-- A line that is held and hidden is raised when it is enabled. -/
theorem Act.raise_of_enable (consistent : Consistent d) {ref : LineRef} {p : Descriptor} {v : Nat}
    (found : d.descriptor? ref = some p) (owner : p.owner = some v)
    (hidden : p.status.visible = false) :
    Event.call (.raise v ref.number p.priority) ∈ (Act.enable ref).events d := by
  have present := (consistent.owned found owner).2.present
  simp [events, shows, Distributor.descriptor_of_eq_some found, owner, present, hidden,
    consistent.numbered found]

/-- A line that is enabled is raised when it is claimed. -/
theorem Act.raise_of_link (consistent : Consistent d) {ref : LineRef} {p : Descriptor} (v : Nat)
    (priority : Byte) (found : d.descriptor? ref = some p) (enabled : p.status.enabled = true) :
    Event.call (.raise v ref.number priority) ∈ (Act.link v ref priority).events d := by
  simp [events, Distributor.descriptor_of_eq_some found, enabled, consistent.numbered found]

end Acts

namespace Steps

variable {σ : Type} {K : Act → Prop} {m m' : Machine σ}

/-- Where lists only grow, what is raised is on a list as it was raised. -/
theorem raises_listed (steps : Steps K m m') (grows : ∀ a, K a → a.Grows)
    (consistent : Consistent m.dist) {v line : Nat} {priority : Byte}
    (member : Call.raise v line priority ∈ m'.calls.drop m.calls.length) :
    m'.dist.Lists v ⟨line, priority⟩ := by
  exact steps.holds_of_made (Q := (·.Lists v ⟨line, priority⟩)) consistent
    (fun allowed consistent made => Act.lists_of_raise allowed consistent made)
    (fun kind allowed lists => (grows _ kind).lists allowed lists) member

end Steps

/-! ## What is enabled or visible was raised -/

/-- Whether a descriptor asks for no raise that another one did not ask for: its line is
with the same VCPU and no flag for which it must have been raised is new. -/
def Descriptor.AsksLess (less more : Descriptor) : Prop :=
  less.owner = more.owner ∧ less.priority = more.priority ∧
    (less.status.enabled = true → more.status.enabled = true) ∧
    (less.status.visible = true → more.status.visible = true)

theorem Descriptor.AsksLess.refl (p : Descriptor) : p.AsksLess p :=
  ⟨rfl, rfl, id, id⟩

theorem Report.asksLess {report : Report} (quiet : report ≠ .visible true) (p : Descriptor) :
    (report.apply p).AsksLess p := by
  refine ⟨Report.apply_owner report p, Report.apply_priority report p, ?_, ?_⟩
  · intro enabled
    cases report with
    | disabled => cases enabled
    | _ => exact enabled
  · intro visible
    cases report with
    | visible shown =>
        cases shown with
        | false => cases visible
        | true => exact absurd rfl quiet
    | completed => cases visible
    | _ => exact visible

theorem Descriptor.asksLess_complete (p : Descriptor) : p.complete.AsksLess p :=
  Report.asksLess (by decide : Report.completed ≠ .visible true) p

/-- A line that nobody holds and no list register has. -/
def Descriptor.Free (p : Descriptor) : Prop :=
  p.owner = none ∧ p.status.visible = false

theorem Descriptor.free_or_asksLess_handBack (v : Nat) (p : Descriptor) :
    (p.handBack v).Free ∨ (p.handBack v).AsksLess p := by
  by_cases owned : p.owner = some v
  · left
    refine ⟨?_, by rw [handBack_status]; rfl⟩
    rw [handBack_owner, if_pos owned]
  · right
    refine ⟨?_, handBack_priority v p, ?_, ?_⟩
    · rw [handBack_owner, if_neg owned]
    · rw [handBack_status]
      exact id
    · rw [handBack_status]
      intro visible
      cases visible

/-! ## Acts that ask for no raise -/

namespace Act

/-- Acts that enable no line, claim none and make none visible. -/
def Quiet : Act → Prop
  | enable _ | link .. => False
  | touch _ report => report ≠ .visible true
  | _ => True

variable {a : Act} {d : Distributor}

theorem free_or_asksLess_of_change {target : LineRef} {f : Descriptor → Descriptor}
    (change : a.change? = some (target, f)) (less : ∀ p, (f p).Free ∨ (f p).AsksLess p)
    {ref : LineRef} {p' : Descriptor} (found : (a.apply d).descriptor? ref = some p') :
    p'.Free ∨ ∃ p, d.descriptor? ref = some p ∧ p'.AsksLess p := by
  rw [descriptor?_apply_of_change? change] at found
  split at found
  · obtain ⟨p, known, rfl⟩ := Option.map_eq_some_iff.1 found
    exact (less p).imp id fun asks => ⟨p, known, asks⟩
  · exact .inr ⟨p', found, .refl p'⟩

theorem free_or_asksLess_setVcpu {v : Nat} {state : Option Vcpu}
    (idle : ∀ vcpu, state = some vcpu → ∀ line : Fin 32, vcpu.lines.get line = Descriptor.idle line)
    {ref : LineRef} {p' : Descriptor} (found : (d.setVcpu v state).descriptor? ref = some p') :
    p'.Free ∨ ∃ p, d.descriptor? ref = some p ∧ p'.AsksLess p := by
  cases ref with
  | shared index => exact .inr ⟨p', found, .refl p'⟩
  | banked w line =>
      rw [Distributor.descriptor?_setVcpu_banked] at found
      split at found
      · obtain ⟨vcpu, made, rfl⟩ := Option.map_eq_some_iff.1 found
        rw [idle vcpu made line]
        exact .inl ⟨rfl, rfl⟩
      · exact .inr ⟨p', found, .refl p'⟩

/-- After a quiet act a line is free, or it asks for no raise that it did not ask for. -/
theorem Quiet.free_or_asksLess (quiet : a.Quiet) (allowed : a.Allowed d) {ref : LineRef}
    {p' : Descriptor} (found : (a.apply d).descriptor? ref = some p') :
    p'.Free ∨ ∃ p, d.descriptor? ref = some p ∧ p'.AsksLess p := by
  cases a with
  | ask | note | call | control | store =>
      rw [Registers.descriptor?_apply (by trivial)] at found
      exact .inr ⟨p', found, .refl p'⟩
  | touch target report =>
      exact free_or_asksLess_of_change rfl (fun p => .inr (report.asksLess quiet p)) found
  | retrigger holder target =>
      exact free_or_asksLess_of_change (a := .retrigger holder target) rfl
        (fun p => .inr ⟨rfl, rfl, id, id⟩) found
  | keep v target =>
      exact free_or_asksLess_of_change (a := .keep v target) rfl
        (fun p => .inr p.asksLess_complete) found
  | unlink holder target =>
      exact free_or_asksLess_of_change (a := .unlink holder target) rfl
        (Descriptor.free_or_asksLess_handBack holder) found
  | clear v =>
      rw [apply] at found
      cases held : d.inflight? v with
      | none =>
          rw [Distributor.dropInflight_of_none held] at found
          exact .inr ⟨p', found, .refl p'⟩
      | some list =>
          rw [Distributor.descriptor?_dropInflight held] at found
          split at found
          · obtain ⟨p, known, rfl⟩ := Option.map_eq_some_iff.1 found
            exact (p.free_or_asksLess_handBack v).imp id fun asks => ⟨p, known, asks⟩
          · exact .inr ⟨p', found, .refl p'⟩
  | allocate v vcpu =>
      obtain ⟨-, -, capacity, -, created⟩ := allowed
      obtain ⟨-, idle, -⟩ := Vcpu.idle_of_create created
      refine free_or_asksLess_setVcpu ?_ found
      rintro _ ⟨⟩
      exact idle
  | release v => exact free_or_asksLess_setVcpu (by rintro _ ⟨⟩) found
  | enable | link => exact quiet.elim

end Act

/-! ## What asks for a raise was raised -/

/-- Since the time noted for it, a line that is with a VCPU and enabled or visible was
raised there; and no line that is with nobody is visible. -/
structure Shown {σ : Type} (since : Nat → Nat → Nat) (m : Machine σ) : Prop where
  raised : ∀ {ref p v}, m.dist.descriptor? ref = some p → p.owner = some v →
    p.status.enabled = true ∨ p.status.visible = true →
    Call.raise v ref.number p.priority ∈ m.calls.drop (since v ref.number)
  hidden : ∀ {ref p}, m.dist.descriptor? ref = some p → p.owner = none →
    p.status.visible = false

namespace Shown

variable {σ : Type} {since : Nat → Nat → Nat} {m m' : Machine σ}

/-- Descriptors that ask for no new raise keep what was raised. -/
theorem mono (before : Shown since m) (grown : m.calls <+: m'.calls)
    (less : ∀ {ref p'}, m'.dist.descriptor? ref = some p' →
      p'.Free ∨ ∃ p, m.dist.descriptor? ref = some p ∧ p'.AsksLess p) : Shown since m' := by
  refine ⟨?_, ?_⟩
  · intro ref p' v found owner asks
    rcases less found with ⟨free, -⟩ | ⟨p, found, owners, priorities, enabled, visible⟩
    · rw [free] at owner
      cases owner
    · rw [priorities]
      exact mem_drop_of_prefix grown
        (before.raised found (owners.symm.trans owner) (asks.imp enabled visible))
  · intro ref p' found free
    rcases less found with ⟨-, hidden⟩ | ⟨p, found, owners, -, -, visible⟩
    · exact hidden
    · have hidden := before.hidden found (owners.symm.trans free)
      exact Bool.eq_false_iff.2 fun shown => Bool.eq_false_iff.1 hidden (visible shown)

/-- A change of one line, with what is known of that line afterwards. -/
theorem update {ref : LineRef} {f : Descriptor → Descriptor} (before : Shown since m)
    (grown : m.calls <+: m'.calls)
    (changed : ∀ other, m'.dist.descriptor? other =
      if ref = other then (m.dist.descriptor? other).map f else m.dist.descriptor? other)
    (raised : ∀ {p v}, m.dist.descriptor? ref = some p → (f p).owner = some v →
      (f p).status.enabled = true ∨ (f p).status.visible = true →
      Call.raise v ref.number (f p).priority ∈ m'.calls.drop (since v ref.number))
    (hidden : ∀ {p}, m.dist.descriptor? ref = some p → (f p).owner = none →
      (f p).status.visible = false) : Shown since m' := by
  refine ⟨?_, ?_⟩
  · intro other p' v found owner asks
    rw [changed] at found
    split at found
    · rename_i same
      subst same
      obtain ⟨p, known, rfl⟩ := Option.map_eq_some_iff.1 found
      exact raised known owner asks
    · exact mem_drop_of_prefix grown (before.raised found owner asks)
  · intro other p' found free
    rw [changed] at found
    split at found
    · rename_i same
      subst same
      obtain ⟨p, known, rfl⟩ := Option.map_eq_some_iff.1 found
      exact hidden known free
    · exact before.hidden found free

theorem quiet {a : Act} (before : Shown since m) (step : Step m a m') (quiet : a.Quiet) :
    Shown since m' := by
  refine before.mono step.calls_extend fun found => quiet.free_or_asksLess step.allowed ?_
  rwa [step.dist] at found

/-- A line may become visible if it was raised. -/
theorem visible {ref : LineRef} (before : Shown since m)
    (step : Step m (.touch ref (.visible true)) m') {v : Nat}
    (owned : (m.dist.descriptor ref).owner = some v)
    (raised : Call.raise v ref.number (m.dist.descriptor ref).priority ∈
      m.calls.drop (since v ref.number)) : Shown since m' := by
  refine before.update step.calls_extend (step.descriptor? rfl) ?_ ?_
  · intro p w found owner _
    rw [Distributor.descriptor_of_eq_some found] at owned raised
    obtain rfl : v = w := Option.some.inj (owned.symm.trans owner)
    exact mem_drop_of_prefix step.calls_extend raised
  · intro p found free
    rw [Distributor.descriptor_of_eq_some found, show p.owner = none from free] at owned
    cases owned

/-- A line that is enabled was raised before if it is visible, and is raised if it is not. -/
theorem enable {ref : LineRef} (before : Shown since m) (step : Step m (.enable ref) m')
    (consistent : Consistent m.dist) (early : ∀ v line, since v line ≤ m.calls.length) :
    Shown since m' := by
  refine before.update step.calls_extend (step.descriptor? rfl) ?_ ?_
  · intro p w found owner _
    have owner : p.owner = some w := owner
    cases visible : p.status.visible with
    | true =>
        have raised := before.raised found owner (.inr visible)
        exact mem_drop_of_prefix step.calls_extend raised
    | false =>
        have made := Act.raise_of_enable consistent found owner visible
        exact step.mem_calls (early w ref.number) made
  · intro p found free
    exact (show p.status.visible = false from before.hidden found free)

/-- A line that is claimed is raised if it is enabled; visible it is not. -/
theorem link {v : Nat} {ref : LineRef} {priority : Byte} (before : Shown since m)
    (step : Step m (.link v ref priority) m') (consistent : Consistent m.dist)
    (early : ∀ v line, since v line ≤ m.calls.length) : Shown since m' := by
  obtain ⟨-, -, -, free, -⟩ := step.allowed
  refine before.update step.calls_extend (step.descriptor? rfl) ?_ ?_
  · intro p w found owner asks
    rw [Distributor.descriptor_of_eq_some found] at free
    obtain rfl : v = w := Option.some.inj owner
    rcases asks with enabled | visible
    · exact step.mem_calls (early v ref.number)
        (Act.raise_of_link consistent v priority found enabled)
    · have visible : p.status.visible = true := visible
      rw [before.hidden found free] at visible
      cases visible
  · intro p found free
    cases free

/-- Every act keeps what is enabled or visible raised. What becomes visible must have been
raised already: that is left to whoever says so. -/
theorem step {a : Act} (before : Shown since m) (step : Step m a m')
    (consistent : Consistent m.dist) (early : ∀ v line, since v line ≤ m.calls.length)
    (promised : ∀ ref, a = .touch ref (.visible true) →
      ∃ v, (m.dist.descriptor ref).owner = some v ∧
        Call.raise v ref.number (m.dist.descriptor ref).priority ∈
          m.calls.drop (since v ref.number)) : Shown since m' := by
  cases a with
  | enable ref => exact before.enable step consistent early
  | link v ref priority => exact before.link step consistent early
  | touch ref report =>
      by_cases loud : report = .visible true
      · subst loud
        obtain ⟨v, owned, raised⟩ := promised ref rfl
        exact before.visible step owned raised
      · exact before.quiet step loud
  | _ => exact before.quiet step (by trivial)

end Shown

/-! ## Completion -/

/-- A completion answers that its line stays exactly if the line is on the list afterwards.
It never looks at the list: it answers from the owner and the flags of the line. -/
theorem Machine.onList_retire_iff {σ : Type} [Host σ] {m : Machine σ}
    (consistent : Consistent m.dist) (v line : Nat) :
    (m.retire v line).2.dist.onList v line = true ↔ (m.retire v line).1 = .ok true := by
  cases resolved : m.dist.resolve v line with
  | error failure =>
      -- A line on the list would resolve.
      have refused : m.retire v line = (.error (.refused failure), m) := by
        unfold retire
        rw [resolved]
      rw [refused]
      refine ⟨fun listed => ?_, by rintro ⟨⟩⟩
      obtain ⟨entry, lists, rfl⟩ := Distributor.onList_iff.1 listed
      obtain ⟨ref, p, number, seen, found, -⟩ := consistent.listed lists
      have accepted := Distributor.resolve_of_seenBy lists.present seen (by simp [found])
      rw [number, resolved] at accepted
      cases accepted
  | ok ref =>
      obtain ⟨-, rfl, seen, there⟩ := Distributor.found_of_resolve resolved
      have completed : ((m.dist.updateLine ref Descriptor.complete).descriptor ref).owner =
          (m.dist.descriptor ref).owner := by
        rw [Distributor.descriptor_updateLine_self there]
        rfl
      have after : Consistent (m.retire v ref.number).2.dist :=
        consistent.perform (.retire v ref.number)
      rw [after.onList_iff_owner seen, retire_of_resolve resolved]
      split
      · rename_i bystander
        simpa [completed] using bystander
      · rename_i held
        have owner : (m.dist.descriptor ref).owner = some v := Decidable.not_not.1 held
        split
        · simpa [completed] using owner
        · obtain ⟨p, known⟩ := Option.isSome_iff_exists.1 there
          rw [Distributor.descriptor_of_eq_some known] at owner
          have handed : (((m.dist.updateLine ref Descriptor.complete).updateLine ref
              (Descriptor.handBack v)).updateInflight v (·.erase ref.number)).descriptor? ref =
                some (p.complete.handBack v) := by
            rw [Distributor.descriptor?_updateLine_updateInflight, if_pos rfl,
              Distributor.descriptor?_updateLine_self, known]
            rfl
          have free : (p.complete.handBack v).owner = none := by
            rw [Descriptor.handBack_owner, if_pos (show p.complete.owner = some v from owner)]
          simp [Distributor.descriptor_of_eq_some handed, free]

/-! ## Watching a machine -/

/-- Whether an operation that leads to `after` completed `line` on `v` and left it inflight. -/
def Operation.keeps (operation : Operation) (after : Distributor) (v line : Nat) : Bool :=
  operation == .retire v line && after.onList v line

theorem Operation.keeps_iff {operation : Operation} {after : Distributor} {v line : Nat} :
    operation.keeps after v line = true ↔
      operation = .retire v line ∧ after.onList v line = true := by
  simp [keeps]

/-- A machine, and when each line was taken up. -/
structure Watched (σ : Type) where
  /-- The machine. -/
  machine : Machine σ
  /-- For a VCPU and a line, how many calls had been made when the operation began that
  last put the line on the list of the VCPU, or completed it and kept it there. -/
  since : Nat → Nat → Nat

namespace Watched

variable {σ : Type}

/-- A machine that has only just started. -/
def begin (m : Machine σ) : Watched σ where
  machine := m
  since _ _ := 0

/-- Whether `line` was raised on `v` at this priority since it was taken up. -/
def Raised (w : Watched σ) (v line : Nat) (priority : Byte) : Prop :=
  Call.raise v line priority ∈ w.machine.calls.drop (w.since v line)

instance (w : Watched σ) (v line : Nat) (priority : Byte) : Decidable (w.Raised v line priority) :=
  inferInstanceAs (Decidable (_ ∈ _))

/-- What the physical interface is held to: a line becomes visible or active on a VCPU only
if it is on the list and was raised since it was taken up. -/
def Honours (w : Watched σ) : Operation → Prop
  | .setVisible v line true | .setActive v line true =>
      w.machine.dist.onList v line = true ∧ ∃ priority, w.Raised v line priority
  | _ => True

variable [Host σ]

/-- Whether an operation takes a line up. -/
def takesUp (w : Watched σ) (operation : Operation) (v line : Nat) : Bool :=
  let after := (w.machine.perform operation).2.dist
  (!w.machine.dist.onList v line && after.onList v line) || operation.keeps after v line

/-- Carry out one operation, and note what it takes up. -/
def perform (w : Watched σ) (operation : Operation) : Watched σ where
  machine := (w.machine.perform operation).2
  since v line :=
    if w.takesUp operation v line then w.machine.calls.length else w.since v line

/-- Carry out a history. -/
def run (w : Watched σ) (operations : List Operation) : Watched σ :=
  operations.foldl perform w

/-- Whether the physical interface keeps to its part throughout a history. -/
def HonoursAll : Watched σ → List Operation → Prop
  | _, [] => True
  | w, operation :: rest => w.Honours operation ∧ (w.perform operation).HonoursAll rest

/-- Watching a machine does not change it. -/
theorem machine_run (w : Watched σ) (operations : List Operation) :
    (w.run operations).machine = w.machine.run operations := by
  induction operations generalizing w with
  | nil => rfl
  | cons operation rest ih => exact ih (w.perform operation)

/-! ## Between operations -/

/-- What holds of a watched machine between operations. -/
structure Sound {σ : Type} (w : Watched σ) : Prop where
  consistent : Consistent w.machine.dist
  early : ∀ v line, w.since v line ≤ w.machine.calls.length
  shown : Shown w.since w.machine
  /-- A line was raised at no other priority than that of its entry. -/
  exact : ∀ {v entry priority}, w.machine.dist.Lists v entry → w.Raised v entry.line priority →
    priority = entry.priority

variable {w : Watched σ} {operation : Operation} {v line : Nat}

theorem since_cases (w : Watched σ) (operation : Operation) (v line : Nat) :
    (w.perform operation).since v line = w.machine.calls.length ∨
      (w.perform operation).since v line = w.since v line := by
  simp only [perform]
  split
  · exact .inl rfl
  · exact .inr rfl

theorem since_of_onList (listed : w.machine.dist.onList v line = true)
    (other : operation.keeps (w.machine.perform operation).2.dist v line = false) :
    (w.perform operation).since v line = w.since v line := by
  simp [perform, takesUp, listed, other]

theorem since_of_linked (before : w.machine.dist.onList v line = false)
    (after : (w.machine.perform operation).2.dist.onList v line = true) :
    (w.perform operation).since v line = w.machine.calls.length := by
  simp [perform, takesUp, before, after]

theorem since_of_keeps
    (keeps : operation.keeps (w.machine.perform operation).2.dist v line = true) :
    (w.perform operation).since v line = w.machine.calls.length := by
  simp [perform, takesUp, keeps]

theorem early_perform (early : ∀ v line, w.since v line ≤ w.machine.calls.length)
    (operation : Operation) (v line : Nat) :
    (w.perform operation).since v line ≤ w.machine.calls.length := by
  simp only [perform]
  split
  · exact Nat.le_refl _
  · exact early v line

/-- A completion that keeps its line raises it. -/
theorem Sound.shown_of_keeps (sound : w.Sound)
    (keeps : operation.keeps (w.machine.perform operation).2.dist v line = true) :
    Shown (w.perform operation).since (w.perform operation).machine := by
  have now := since_of_keeps keeps
  obtain ⟨rfl, stays⟩ := Operation.keeps_iff.1 keeps
  have kept : (w.machine.retire v line).1 = .ok true :=
    (Machine.onList_retire_iff sound.consistent v line).1 stays
  obtain ⟨ref, resolved, step⟩ := Machine.step_of_retire_kept kept
  obtain ⟨-, rfl, seen, -⟩ := Distributor.found_of_resolve resolved
  have shown := sound.shown.step step sound.consistent sound.early (by rintro _ ⟨⟩)
  have lists : ∀ u entry, (w.machine.retire v ref.number).2.dist.Lists u entry ↔
      w.machine.dist.Lists u entry := by
    intro u entry
    rw [step.dist]
    exact Distributor.lists_of_inflight? (Distributor.inflight?_updateLine ..)
  have consistent : Consistent (w.machine.retire v ref.number).2.dist :=
    step.dist ▸ sound.consistent.apply step.allowed
  refine ⟨?_, shown.hidden⟩
  intro other p u found owner asks
  obtain ⟨seen', listed⟩ := consistent.owned found owner
  by_cases same : u = v ∧ other.number = ref.number
  · obtain ⟨rfl, number⟩ := same
    obtain rfl := LineRef.eq_of_seenBy seen' seen number
    have changed := step.descriptor? rfl other
    rw [if_pos rfl] at changed
    obtain ⟨q, known, rfl⟩ := Option.map_eq_some_iff.1 (changed.symm.trans found)
    rw [now]
    show _ ∈ (w.machine.retire u other.number).2.calls.drop _
    rw [step.calls, mem_drop_append (Nat.le_refl _), mem_calls_of_events, Act.events,
      Distributor.descriptor_of_eq_some known]
    exact .inr (List.mem_singleton.2 rfl)
  · rw [since_of_onList]
    · exact shown.raised found owner asks
    · exact Distributor.onList_iff.2 ⟨_, (lists u _).1 listed, rfl⟩
    · refine Bool.eq_false_iff.2 fun other' => same ?_
      obtain ⟨same', -⟩ := Operation.keeps_iff.1 other'
      injection same' with vcpus lines
      exact ⟨vcpus.symm, lines.symm⟩

/-- Any other operation leaves alone when its lines on lists were taken up. -/
theorem Sound.shown_of_not_keeps (sound : w.Sound) (honours : w.Honours operation)
    (lets : ∀ v line,
      operation.keeps (w.machine.perform operation).2.dist v line = false) :
    Shown (w.perform operation).since (w.perform operation).machine := by
  have same : ∀ {ref p v}, w.machine.dist.descriptor? ref = some p → p.owner = some v →
      (w.perform operation).since v ref.number = w.since v ref.number :=
    fun found owner => since_of_onList (sound.consistent.onList_of_owner found owner) (lets _ _)
  have shown : Shown (w.perform operation).since w.machine := by
    refine ⟨?_, sound.shown.hidden⟩
    intro ref p v found owner asks
    rw [same found owner]
    exact sound.shown.raised found owner asks
  have early := early_perform sound.early operation
  by_cases enters : ∃ v line, operation = .setVisible v line true
  · obtain ⟨v, line, rfl⟩ := enters
    rcases w.machine.updateStatus_cases (.visible true) v line with
      still | ⟨ref, resolved, step⟩
    · rw [show (w.perform (.setVisible v line true)).machine = w.machine from still]
      exact shown
    · refine shown.step step sound.consistent early ?_
      rintro _ ⟨⟩
      obtain ⟨listed, priority, raised⟩ := honours
      obtain ⟨entry, lists, rfl⟩ := Distributor.onList_iff.1 listed
      obtain ⟨p, found⟩ := Option.isSome_iff_exists.1 step.allowed
      obtain ⟨-, number, seen, -⟩ := Distributor.found_of_resolve resolved
      obtain ⟨owner, priorities⟩ := sound.consistent.owner_of_lists lists number seen found
      rw [sound.exact lists raised] at raised
      rw [Distributor.descriptor_of_eq_some found]
      refine ⟨v, owner, ?_⟩
      rw [same found owner, number, priorities]
      exact raised
  · refine ((w.machine.perform_steps operation).kept (P := fun s => Consistent s.dist ∧
      (∀ v line, (w.perform operation).since v line ≤ s.calls.length) ∧
      Shown (w.perform operation).since s) ?_ ⟨sound.consistent, early, shown⟩).2.2
    rintro m a m' takes step ⟨consistent, early, shown⟩
    refine ⟨step.dist ▸ consistent.apply step.allowed, ?_, ?_⟩
    · intro v line
      rw [step.calls, List.length_append]
      exact Nat.le_add_right_of_le (early v line)
    · refine shown.step step consistent early ?_
      rintro ref rfl
      exact absurd (Operation.setVisible_of_takes takes) enters

/-- What is raised since a line was taken up is raised as its entry says. -/
theorem Sound.exact_perform (sound : w.Sound) (operation : Operation) {v : Nat} {entry : Entry}
    {priority : Byte} (lists : (w.perform operation).machine.dist.Lists v entry)
    (raised : (w.perform operation).Raised v entry.line priority) : priority = entry.priority := by
  have steps := w.machine.perform_steps operation
  have consistent : Consistent (w.machine.perform operation).2.dist :=
    sound.consistent.perform operation
  rcases operation.grows_or_shrinks w.machine.dist with grows | shrinks
  · have new : Call.raise v entry.line priority ∈
        (w.machine.perform operation).2.calls.drop w.machine.calls.length →
        priority = entry.priority := by
      intro member
      have lists' := steps.raises_listed grows sound.consistent member
      exact congrArg Entry.priority (consistent.entry_unique lists' lists rfl)
    cases listed : w.machine.dist.onList v entry.line with
    | false =>
        have linked := since_of_linked listed (Distributor.onList_iff.2 ⟨entry, lists, rfl⟩)
        exact new (linked ▸ raised)
    | true =>
        rcases since_cases w operation v entry.line with now | before
        · exact new (now ▸ raised)
        · obtain ⟨old, lists', same⟩ := Distributor.onList_iff.1 listed
          obtain rfl := consistent.entry_unique (steps.lists_of_grows grows lists') lists same
          have raised : Call.raise v old.line priority ∈
              (w.machine.perform operation).2.calls.drop (w.since v old.line) := before ▸ raised
          rcases mem_drop_cases (sound.early v old.line) steps.calls_extend raised with
            raised | raised
          · exact sound.exact lists' raised
          · exact new raised
  · have raised := steps.raises_old shrinks (early_perform sound.early operation v entry.line)
      rfl raised
    rcases since_cases w operation v entry.line with now | before
    · rw [now, List.drop_length] at raised
      cases raised
    · rw [before] at raised
      exact sound.exact (steps.lists_of_shrinks shrinks lists) raised

theorem Sound.perform (sound : w.Sound) (honours : w.Honours operation) :
    (w.perform operation).Sound where
  consistent := sound.consistent.perform operation
  early := fun v line => Nat.le_trans (early_perform sound.early operation v line)
    (w.machine.perform_steps operation).calls_extend.length_le
  shown := by
    by_cases keeps : ∃ v line,
        operation.keeps (w.machine.perform operation).2.dist v line = true
    · obtain ⟨v, line, keeps⟩ := keeps
      exact sound.shown_of_keeps keeps
    · exact sound.shown_of_not_keeps honours fun v line =>
        Bool.eq_false_iff.2 fun keeps' => keeps ⟨v, line, keeps'⟩
  exact := fun lists raised => sound.exact_perform operation lists raised

theorem Sound.run (sound : w.Sound) (operations : List Operation)
    (honoured : w.HonoursAll operations) : (w.run operations).Sound := by
  induction operations generalizing w with
  | nil => exact sound
  | cons operation rest ih => exact ih (sound.perform honoured.1) honoured.2

omit [Host σ] in
theorem sound_begin {config : Config} {host : σ} {m : Machine σ}
    (started : Machine.start config host = .ok m) : (begin m).Sound := by
  obtain ⟨-, rfl⟩ := Machine.start_eq_ok_iff.1 started
  have consistent := Consistent.create config
  refine ⟨consistent, fun _ _ => Nat.zero_le _, ⟨?_, ?_⟩, ?_⟩
  · intro ref p v found owner
    obtain rfl := Distributor.eq_idle_of_create found
    cases owner
  · intro ref p found _
    obtain rfl := Distributor.eq_idle_of_create found
    rfl
  · intro v entry priority lists raised
    cases raised

end Watched

/-- If the physical interface keeps to its part, every line that is enabled and on a list
was raised there since it was taken up, at the priority of its entry. -/
theorem raised_of_enabled {σ : Type} [Host σ] {config : Config} {host : σ} {m : Machine σ}
    (started : Machine.start config host = .ok m) (operations : List Operation)
    (honoured : (Watched.begin m).HonoursAll operations) {v : Nat} {entry : Entry}
    {p : Descriptor} (lists : (m.run operations).dist.Lists v entry)
    (found : (m.run operations).dist.line? v entry.line = some p)
    (enabled : p.status.enabled = true) :
    ((Watched.begin m).run operations).Raised v entry.line entry.priority := by
  have sound := (Watched.sound_begin started).run operations honoured
  have same : ((Watched.begin m).run operations).machine = m.run operations :=
    Watched.machine_run _ operations
  rw [← same] at lists found
  obtain ⟨ref, number, seen, there⟩ := Distributor.line?_eq_some_iff.1 found
  obtain ⟨owner, priority⟩ := sound.consistent.owner_of_lists lists number seen there
  have raised := sound.shown.raised there owner (.inl enabled)
  rw [number, priority] at raised
  exact raised

/-- A line is enabled, raised, shown, raised again behind its back, and completed: the
completion keeps it inflight, and raises it. -/
theorem raised_of_enabled_completed :
    let m : Machine SteadyHost := .fresh (.forGuest 1) { up := [0] }
    let operations : List Operation := [.initVcpu 0, .enableLines 0 32 0, .inject 0 5,
      .setVisible 0 5 true, .inject 0 5, .retire 0 5]
    (m.run operations).dist.onList 0 5 = true ∧
      ((Watched.begin m).run operations).Raised 0 5 0 := by
  intro m operations
  have started : Machine.start (.forGuest 1) ({ up := [0] } : SteadyHost) = .ok m := rfl
  have honoured : (Watched.begin m).HonoursAll operations :=
    ⟨trivial, trivial, trivial, ⟨by decide +kernel, 0, by decide +kernel⟩, trivial, trivial,
      trivial⟩
  have lists : (m.run operations).dist.Lists 0 ⟨5, 0⟩ := by decide +kernel
  have enabled : ((m.run operations).dist.line? 0 5).any (·.status.enabled) = true := by
    decide +kernel
  obtain ⟨p, found, enabled⟩ := (Option.any_eq_true ..).1 enabled
  have raised := raised_of_enabled started operations honoured lists found enabled
  exact ⟨by decide +kernel, raised⟩

end VirtualGic
