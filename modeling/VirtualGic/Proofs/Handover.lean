/-
# Proofs.Handover — lines that change hands while their holder is looked for

`lockHolder` reads who holds a line before it has the lock of that VCPU, and meanwhile
other VCPUs may give the line back and claim it. A `Handover` is one such change, made
complete: the acts by which lines come on lists and off them, and those that only mark a
line. A VCPU is neither made nor released by it, and no register changes.

`Retries` is the course of the loop: every round but the last finds another owner under the
lock than the one it read. `found_amid` says where it ends. What is done then is done once,
and as if nobody had interfered: raising a line amid handovers is raising it afterwards
(`injectAmid_eq`), and so is disabling it (`disableLine_amid`). `Kept` is what all this rests
on: it holds across handovers, and across the lines that a mask disables before.
-/
import VirtualGic.Proofs.Dequeuing
import VirtualGic.Proofs.NoTrace

namespace VirtualGic

set_option autoImplicit false

/-- The acts of VCPUs by which the line `ref` changes hands, or is marked. -/
def Act.Moves (ref : LineRef) (d : Distributor) : Act → Prop
  | link w other _ => other = ref ∧ ref.SeenBy w ∧ (d.vcpu? w).isSome = true ∧
      (d.descriptor ref).owner = none
  | unlink holder other => other = ref ∧ (d.descriptor ref).owner = some holder
  | touch other _ | retrigger _ other | keep _ other => other = ref
  | ask | note _ | call _ | clear _ => True
  | _ => False

/-- A change of who holds the line `ref`, with lists and flags brought up to date. What the
host and the log make of it is open. -/
def Handover {σ : Type} (ref : LineRef) (m m' : Machine σ) : Prop :=
  ∃ a : Act, a.Moves ref m.dist ∧ m'.dist = a.apply m.dist

/-! ## What stays -/

/-- A change of a descriptor that does not enable it, and gives it to `heirs` at most. -/
structure Descriptor.Tame (heirs : Nat → Prop) (f : Descriptor → Descriptor) : Prop where
  line : ∀ p, (f p).line = p.line
  disabled : ∀ p, p.status.enabled = false → (f p).status.enabled = false
  owned : ∀ p w, (f p).owner = some w → p.owner = some w ∨ heirs w

namespace Descriptor

variable {heirs : Nat → Prop}

theorem Tame.id : Tame heirs id :=
  ⟨fun _ => rfl, fun _ disabled => disabled, fun _ _ owned => .inl owned⟩

theorem Tame.report (report : Report) : Tame heirs report.apply := by
  refine ⟨report.apply_line, fun p disabled => ?_, fun p w owned => .inl ?_⟩
  · cases report with
    | disabled => rfl
    | _ => exact disabled
  · rwa [report.apply_owner] at owned

theorem Tame.setQueued : Tame heirs setQueued :=
  ⟨fun _ => rfl, fun _ disabled => disabled, fun _ _ owned => .inl owned⟩

theorem Tame.claim {v : Nat} (given : heirs v) (priority : Byte) :
    Tame heirs (claim v priority) := by
  refine ⟨fun _ => rfl, fun _ disabled => disabled, fun p w owned => .inr ?_⟩
  obtain rfl : v = w := Option.some.inj owned
  exact given

theorem Tame.handBack (holder : Nat) : Tame heirs (handBack holder) := by
  refine ⟨handBack_line holder, fun p disabled => ?_, fun p w owned => .inl ?_⟩
  · rw [handBack_status]
    exact disabled
  · rw [handBack_owner] at owned
    split at owned
    · cases owned
    · exact owned

end Descriptor

/-- VCPUs and registers are the same, and so are the lines but for their flags and owners. No
line is enabled, and none but those in `S` get an owner. -/
structure Kept (S : LineRef → Prop) (d d' : Distributor) : Prop where
  registers : d'.registers = d.registers
  present : ∀ w, (d'.vcpu? w).isSome = (d.vcpu? w).isSome
  there : ∀ other, (d'.descriptor? other).isSome = (d.descriptor? other).isSome
  line : ∀ other, (d'.descriptor other).line = (d.descriptor other).line
  disabled : ∀ other, (d.descriptor other).status.enabled = false →
    (d'.descriptor other).status.enabled = false
  owned : ∀ {other w}, (d'.descriptor other).owner = some w →
    (d.descriptor other).owner = some w ∨ S other ∧ (d.vcpu? w).isSome = true

namespace Kept

variable {S : LineRef → Prop} {d d' d'' : Distributor}

theorem refl (d : Distributor) : Kept S d d :=
  ⟨rfl, fun _ => rfl, fun _ => rfl, fun _ => rfl, fun _ disabled => disabled, .inl⟩

theorem trans (first : Kept S d d') (second : Kept S d' d'') : Kept S d d'' where
  registers := second.registers.trans first.registers
  present w := (second.present w).trans (first.present w)
  there other := (second.there other).trans (first.there other)
  line other := (second.line other).trans (first.line other)
  disabled other off := second.disabled other (first.disabled other off)
  owned {other w} owner := by
    rcases second.owned owner with owner | ⟨inside, alive⟩
    · exact first.owned owner
    · exact .inr ⟨inside, first.present w ▸ alive⟩

theorem of_tame (registers : d'.registers = d.registers)
    (lists : ∀ w, (d'.inflight? w).isSome = (d.inflight? w).isSome)
    (descriptors : ∀ other, ∃ f, d'.descriptor? other = (d.descriptor? other).map f ∧
      Descriptor.Tame (fun w => S other ∧ (d.vcpu? w).isSome = true) f) : Kept S d d' := by
  have readings : ∀ other, d'.descriptor other = d.descriptor other ∨ ∃ f,
      d'.descriptor other = f (d.descriptor other) ∧
        Descriptor.Tame (fun w => S other ∧ (d.vcpu? w).isSome = true) f := by
    intro other
    obtain ⟨f, change, tame⟩ := descriptors other
    cases found : d.descriptor? other with
    | none => exact .inl (by simp [Distributor.descriptor, change, found])
    | some p => exact .inr ⟨f, by simp [Distributor.descriptor, change, found], tame⟩
  refine ⟨registers, fun w => ?_, fun other => ?_, fun other => ?_, fun other off => ?_, ?_⟩
  · rw [← Distributor.inflight?_isSome, lists, Distributor.inflight?_isSome]
  · obtain ⟨f, change, -⟩ := descriptors other
    rw [change, Option.isSome_map]
  · obtain same | ⟨f, change, tame⟩ := readings other
    · rw [same]
    · rw [change, tame.line]
  · obtain same | ⟨f, change, tame⟩ := readings other
    · rw [same, off]
    · rw [change, tame.disabled _ off]
  · intro other w owner
    obtain same | ⟨f, change, tame⟩ := readings other
    · exact .inl (same ▸ owner)
    · exact tame.owned _ w (change ▸ owner)

/-- An act that changes one line keeps all this if the change is tame. -/
theorem of_change {a : Act} {target : LineRef} {f : Descriptor → Descriptor}
    (change : a.change? = some (target, f))
    (tame : Descriptor.Tame (fun w => S target ∧ (d.vcpu? w).isSome = true) f) :
    Kept S d (a.apply d) := by
  refine of_tame ?_ (fun w => ?_) (fun other => ?_)
  · cases a with
    | touch | enable | retrigger | keep => exact Distributor.registers_updateLine ..
    | link | unlink =>
        rw [Act.apply, Distributor.registers_updateInflight, Distributor.registers_updateLine]
    | _ => cases change
  · refine Act.inflight?_isSome_apply w ?_
    cases a <;> trivial
  · by_cases same : target = other
    · exact ⟨f, by rw [Act.descriptor?_apply_of_change? change, if_pos same], same ▸ tame⟩
    · exact ⟨id, by rw [Act.descriptor?_apply_of_change? change, if_neg same, Option.map_id_apply],
        .id⟩

theorem clear (holder : Nat) : Kept S d ((Act.clear holder).apply d) := by
  refine of_tame (Distributor.registers_dropInflight d holder)
    (fun w => Act.inflight?_isSome_apply w trivial) (fun other => ?_)
  rw [Act.apply]
  cases held : d.inflight? holder with
  | none => exact ⟨id, by rw [Distributor.dropInflight_of_none held, Option.map_id_apply], .id⟩
  | some list =>
      rw [Distributor.descriptor?_dropInflight held]
      split
      · exact ⟨_, rfl, .handBack holder⟩
      · exact ⟨id, Option.map_id_apply.symm, .id⟩

theorem of_moves {ref : LineRef} {a : Act} (moves : a.Moves ref d) :
    Kept (· = ref) d (a.apply d) := by
  cases a with
  | ask | note | call => exact .refl d
  | touch other report => exact of_change rfl (.report report)
  | retrigger w other => exact of_change rfl .setQueued
  | keep w other => exact of_change rfl (.report .completed)
  | link w other priority =>
      obtain ⟨same, -, alive, -⟩ := moves
      exact of_change rfl (.claim ⟨same, alive⟩ priority)
  | unlink holder other => exact of_change rfl (.handBack holder)
  | clear holder => exact clear holder
  | control | store | enable | allocate | release => exact moves.elim

theorem of_disables {T : LineRef → Prop} {a : Act} (disables : a.Disables T) :
    Kept S d (a.apply d) := by
  cases a with
  | ask | note | call => exact .refl d
  | touch other report => exact of_change rfl (.report report)
  | unlink holder other => exact of_change rfl (.handBack holder)
  | _ => exact disables.elim

variable {σ : Type} {m m' : Machine σ}

theorem of_handovers {ref : LineRef} (handovers : Relation.ReflTransGen (Handover ref) m m') :
    Kept (· = ref) m.dist m'.dist := by
  induction handovers with
  | refl => exact .refl _
  | tail _ handover ih =>
      obtain ⟨a, moves, dist⟩ := handover
      exact ih.trans (dist ▸ of_moves moves)

theorem of_steps {T : LineRef → Prop} (steps : Steps (Act.Disables T) m m') :
    Kept S m.dist m'.dist :=
  steps.kept (P := fun s => Kept S m.dist s.dist)
    (fun disables step before => before.trans (step.dist ▸ of_disables disables)) (.refl _)

/-! ## What is looked up -/

theorem lineRef? (kept : Kept S d d') (v line : Nat) : d'.lineRef? v line = d.lineRef? v line := by
  refine Option.ext fun other => ?_
  rw [Distributor.lineRef?_eq_some_iff, Distributor.lineRef?_eq_some_iff, kept.there]

theorem resolve (kept : Kept S d d') {v line : Nat} {other : LineRef}
    (resolved : d.resolve v line = .ok other) : d'.resolve v line = .ok other := by
  rw [Distributor.resolve_eq_ok_iff, kept.present, kept.lineRef?]
  exact Distributor.resolve_eq_ok_iff.1 resolved

theorem priorityOf (kept : Kept S d d') (v line : Nat) :
    d'.priorityOf v line = d.priorityOf v line := by
  have ranks : d'.rank? = d.rank? := congrArg (·.2.2) kept.registers
  unfold Distributor.priorityOf
  rw [ranks]

end Kept

/-- Every owner of a line has state. -/
def Distributor.Owned (d : Distributor) : Prop :=
  ∀ ⦃ref w⦄, (d.descriptor ref).owner = some w → (d.vcpu? w).isSome = true

theorem Agreement.owned {d : Distributor} (agreement : Agreement d) : d.Owned :=
  fun _ _ owner => agreement.owner_present (Distributor.descriptor?_of_owner owner) owner

/-- A line that is disabled and on no list. -/
def Distributor.Off (d : Distributor) (ref : LineRef) : Prop :=
  (d.descriptor ref).owner = none ∧ (d.descriptor ref).status.enabled = false

theorem Kept.off {S : LineRef → Prop} {d d' : Distributor} (kept : Kept S d d') {ref : LineRef}
    (outside : ¬ S ref) (off : d.Off ref) : d'.Off ref := by
  refine ⟨?_, kept.disabled ref off.2⟩
  cases owner : (d'.descriptor ref).owner with
  | none => rfl
  | some w =>
      rcases kept.owned owner with before | ⟨inside, -⟩
      · rw [off.1] at before
        cases before
      · exact absurd inside outside

theorem Kept.alive {S : LineRef → Prop} {d d' : Distributor} (kept : Kept S d d')
    (owned : d.Owned) : d'.Owned := by
  intro other w owner
  rw [kept.present]
  rcases kept.owned owner with owner | ⟨-, alive⟩
  · exact owned owner
  · exact alive

/-- The operations that act on the line `ref` alone, or drop all that a VCPU has. -/
def Operation.Concerns (ref : LineRef) : Operation → Prop
  | .inject w line | .retire w line | .setVisible w line _ | .setActive w line _ =>
      ref.SeenBy w ∧ ref.number = line
  | .clearPending _ => True
  | _ => False

namespace Machine

variable {σ : Type}

/-! ## The loop -/

/-- Every change, made where the changes before it have left the machine, is a number of
handovers of the line. -/
def Slips (ref : LineRef) : List (Change σ) → Machine σ → Prop
  | [], _ => True
  | change :: changes, m =>
      Relation.ReflTransGen (Handover ref) m (change m) ∧ Slips ref changes (change m)

/-- The course of the search for the holder of `ref` while `changes` slip in, one in a round:
`failed` rounds find another owner under the lock than they read, and start again. The round
after them finds the owner it read, in the machine `after`. -/
inductive Retries (ref : LineRef) : (failed : Nat) → (changes : List (Change σ)) →
    (m after : Machine σ) → Prop
  | still (m : Machine σ) : Retries ref 0 [] m m
  | same {change : Change σ} {changes : List (Change σ)} {m : Machine σ}
      (owner : ((change m).dist.descriptor ref).owner = (m.dist.descriptor ref).owner) :
      Retries ref 0 (change :: changes) m (change m)
  | moved {failed : Nat} {change : Change σ} {changes : List (Change σ)} {m after : Machine σ}
      (owner : ((change m).dist.descriptor ref).owner ≠ (m.dist.descriptor ref).owner)
      (rest : Retries ref failed changes (change m) after) :
      Retries ref (failed + 1) (change :: changes) m after

/-- What the search finds: the VCPU that holds the line in `after`, or `v` if none does. Each
failed round is one in which the line changed hands. -/
structure Found (ref : LineRef) (v : Nat) (changes : List (Change σ)) (m after : Machine σ) :
    Prop where
  rounds : ∃ failed ≤ changes.length, Retries ref failed changes m after
  holder : m.lockHolder v ref changes =
    (some ((after.dist.descriptor ref).owner.getD v), after)
  /-- In the machine that is left, it is found in the first round. -/
  again : after.lockHolder v ref [] = (some ((after.dist.descriptor ref).owner.getD v), after)

theorem holder_eq {d : Distributor} (owned : d.Owned) (ref : LineRef) (v : Nat) :
    d.holder v ref = .ok ((d.descriptor ref).owner.getD v) := by
  unfold Distributor.holder
  cases owner : (d.descriptor ref).owner with
  | none => rfl
  | some w => simp only [owned owner, if_true, Option.getD_some]

theorem lockHolder_alone {m : Machine σ} (owned : m.dist.Owned) (ref : LineRef) (v : Nat) :
    m.lockHolder v ref [] = (some ((m.dist.descriptor ref).owner.getD v), m) :=
  lockHolder_of_holder (holder_eq owned ref v)

/-- Whatever slips in, the search ends, and no later than in the round after the last change. -/
theorem found_amid {ref : LineRef} (v : Nat) {changes : List (Change σ)} {m : Machine σ}
    (owned : m.dist.Owned) (slips : Slips ref changes m) :
    ∃ after, Found ref v changes m after ∧ Kept (· = ref) m.dist after.dist := by
  induction changes generalizing m with
  | nil =>
      have alone := lockHolder_alone owned ref v
      exact ⟨m, ⟨⟨0, Nat.le_refl 0, .still m⟩, alone, alone⟩, .refl _⟩
  | cons change changes ih =>
      obtain ⟨handovers, slips⟩ := slips
      have kept := Kept.of_handovers handovers
      have round : m.lockHolder v ref (change :: changes) =
          if ((change m).dist.descriptor ref).owner = (m.dist.descriptor ref).owner then
            (some ((m.dist.descriptor ref).owner.getD v), change m)
          else lockHolder v ref changes (change m) := by
        rw [lockHolder, holder_eq owned]
      by_cases same : ((change m).dist.descriptor ref).owner = (m.dist.descriptor ref).owner
      · refine ⟨change m, ⟨⟨0, Nat.zero_le _, .same same⟩, ?_, ?_⟩, kept⟩
        · rw [round, if_pos same, same]
        · exact lockHolder_alone (kept.alive owned) ref v
      · obtain ⟨after, found, later⟩ := ih (kept.alive owned) slips
        obtain ⟨failed, bounded, retries⟩ := found.rounds
        refine ⟨after, ⟨⟨failed + 1, Nat.succ_le_succ bounded, .moved same retries⟩, ?_,
          found.again⟩, kept.trans later⟩
        rw [round, if_neg same, found.holder]

/-! ## Operations that are handovers -/

theorem handovers_of_steps {K : Act → Prop} {ref : LineRef} {m m' : Machine σ}
    (steps : Steps K m m') (moves : ∀ a d, K a → a.Allowed d → a.Moves ref d) :
    Relation.ReflTransGen (Handover ref) m m' :=
  Relation.ReflTransGen.mono
    (fun _ _ ⟨a, kind, step⟩ => ⟨a, moves a _ kind step.allowed, step.dist⟩) _ _ steps

variable [Host σ]

/-- What other VCPUs ask for is a number of handovers, if it is about this line alone or drops
all that is inflight on one of them. -/
theorem handovers_perform {ref : LineRef} {operation : Operation}
    (concerns : operation.Concerns ref) (m : Machine σ) :
    Relation.ReflTransGen (Handover ref) m (m.perform operation).2 := by
  refine handovers_of_steps (m.perform_steps operation) fun a d takes allowed => ?_
  have alone : ∀ {w line : Nat} {other : LineRef}, ref.SeenBy w ∧ ref.number = line →
      other.Named w [line] → other = ref := by
    rintro w line other ⟨seen, number⟩ ⟨seen', member⟩
    exact LineRef.eq_of_seenBy seen' seen ((List.mem_singleton.1 member).trans number.symm)
  cases operation with
  | inject w line =>
      cases a with
      | ask | note | call => trivial
      | retrigger holder other => exact alone concerns takes
      | link u other priority =>
          obtain rfl := alone concerns takes
          exact ⟨rfl, allowed.2.1, allowed.2.2.1, allowed.2.2.2.1⟩
      | _ => exact takes.elim
  | retire w line =>
      obtain ⟨other, resolved, takes⟩ := takes
      obtain rfl := alone concerns (.of_resolve resolved)
      split at takes
      · subst takes
        exact rfl
      · rcases takes with rfl | rfl
        · exact rfl
        · exact ⟨rfl, allowed⟩
  | setVisible w line visible | setActive w line active =>
      obtain ⟨other, resolved, rfl⟩ := takes
      exact alone concerns (.of_resolve resolved)
  | clearPending w =>
      obtain idle | rfl := takes
      · cases a <;> trivial
      · trivial
  | _ => exact concerns.elim

theorem handovers_run {ref : LineRef} {operations : List Operation}
    (concerns : ∀ operation ∈ operations, operation.Concerns ref) (m : Machine σ) :
    Relation.ReflTransGen (Handover ref) m (m.run operations) := by
  induction operations generalizing m with
  | nil => exact .refl
  | cons operation rest ih =>
      obtain ⟨first, others⟩ := List.forall_mem_cons.1 concerns
      exact (handovers_perform first m).trans (ih others _)

theorem slips_runs {ref : LineRef} {rounds : List (List Operation)}
    (concern : ∀ operations ∈ rounds, ∀ operation ∈ operations, operation.Concerns ref)
    (m : Machine σ) : Slips ref (rounds.map fun operations m => m.run operations) m := by
  induction rounds generalizing m with
  | nil => trivial
  | cons operations rest ih =>
      obtain ⟨first, others⟩ := List.forall_mem_cons.1 concern
      exact ⟨handovers_run first m, ih others _⟩

/-! ## Raising a line amid handovers -/

theorem deliver_amid {m after : Machine σ} {v : Nat} {ref : LineRef} {changes : List (Change σ)}
    (found : Found ref v changes m after) (kept : Kept (· = ref) m.dist after.dist) :
    m.deliver changes v ref = after.deliver [] v ref := by
  unfold deliver
  rw [found.holder, found.again]
  simp only [kept.line, kept.priorityOf]

theorem injectAmid_eq {m after : Machine σ} {v line : Nat} {ref : LineRef}
    (resolved : m.dist.resolve v line = .ok ref) {changes : List (Change σ)}
    (found : Found ref v changes m after) (kept : Kept (· = ref) m.dist after.dist) :
    m.injectAmid changes v line = after.inject v line := by
  unfold inject injectAmid
  rw [resolved, kept.resolve resolved]
  simp only [deliver_amid found kept]

/-! ## Disabling a line amid handovers -/

section Disabled

variable {S : LineRef → Prop} {m after : Machine σ} {v line : Nat} {ref : LineRef}

omit [Host σ] in
theorem kept_disabled : Kept S m.dist (m.disabled ref).dist :=
  Kept.of_change (a := .touch ref .disabled) rfl (.report .disabled)

omit [Host σ] in
theorem enabled_disabled (there : (m.dist.descriptor? ref).isSome = true) :
    ((m.disabled ref).dist.descriptor ref).status.enabled = false := by
  rw [disabled, dist_modify, Distributor.descriptor_updateLine_self there]
  rfl

omit [Host σ] in
theorem disabled_of_enabled_false (there : (m.dist.descriptor? ref).isSome = true)
    (off : (m.dist.descriptor ref).status.enabled = false) : m.disabled ref = m := by
  obtain ⟨p, found⟩ := Option.isSome_iff_exists.1 there
  have fixed : p.setEnabled false = p := by
    rw [Distributor.descriptor_of_eq_some found] at off
    unfold Descriptor.setEnabled
    rw [← off]
  have same := Distributor.updateLine_of_fixed found fixed
  obtain ⟨dist, host, trace⟩ := m
  simp only [disabled, modify, same]

theorem dequeue_amid {changes : List (Change σ)} (found : Found ref v changes m after) :
    m.dequeue changes v ref line = after.dequeue [] v ref line := by
  unfold dequeue
  rw [found.holder, found.again]

/-- Disabling a line amid handovers is disabling it afterwards. -/
theorem disableLine_amid (looked : m.dist.lineRef? v line = some ref) (owned : m.dist.Owned)
    (changes : Nat → List (Change σ)) (slips : Slips ref (changes line) (m.disabled ref)) :
    ∃ after, Found ref v (changes line) (m.disabled ref) after ∧
      Kept (· = ref) m.dist after.dist ∧
      disableLine changes v m line = disableLine (fun _ => []) v after line := by
  have there := (Distributor.lineRef?_eq_some_iff.1 looked).2.2
  have before : Kept (· = ref) m.dist (m.disabled ref).dist := kept_disabled
  obtain ⟨after, found, later⟩ := found_amid v (before.alive owned) slips
  have kept := before.trans later
  have same : after.disabled ref = after :=
    disabled_of_enabled_false ((kept.there ref).trans there)
      (later.disabled ref (enabled_disabled there))
  refine ⟨after, found, kept, ?_⟩
  calc disableLine changes v m line
      = ((m.disabled ref).dequeue (changes line) v ref line).disablePhysical ref :=
        disableLine_of_some looked changes
    _ = ((after.disabled ref).dequeue [] v ref line).disablePhysical ref := by
        rw [dequeue_amid found, same]
    _ = disableLine (fun _ => []) v after line :=
        (disableLine_of_some ((kept.lineRef? v line).trans looked) fun _ => []).symm

end Disabled

/-! ## The lines that are disabled before -/

section Lines

variable {m : Machine σ} {v : Nat} {lines : List Nat}

theorem steps_disableAll (m : Machine σ) (v : Nat) (lines : List Nat) :
    Steps (Act.Disables fun _ => True) m (lines.foldl (disableLine (fun _ => []) v) m) :=
  Steps.foldl (P := fun _ => True)
    (fun m line _ _ => (steps_disableLine m line).mono fun _ => Act.Disables.mono fun _ _ => trivial)
    (fun _ _ _ _ => trivial) m trivial

theorem off_disableLine (owned : m.dist.Owned) {line : Nat} {ref : LineRef}
    (looked : m.dist.lineRef? v line = some ref) :
    (disableLine (fun _ => []) v m line).dist.Off ref := by
  obtain ⟨rfl, -, there⟩ := Distributor.lineRef?_eq_some_iff.1 looked
  have kept : Kept (fun _ => False) m.dist (m.disabled ref).dist := kept_disabled
  have off := enabled_disabled there
  rw [disableLine_of_some looked, dist_disablePhysical]
  cases owner : ((m.disabled ref).dist.descriptor ref).owner with
  | none =>
      rw [dequeue_of_free _ owner]
      exact ⟨owner, off⟩
  | some holder =>
      rw [dequeue_of_held owner (kept.alive owned owner), dist_call, dist_modify]
      have after : ((Act.unlink holder ref).apply (m.disabled ref).dist).descriptor ref =
          ((m.disabled ref).dist.descriptor ref).handBack holder := by
        obtain ⟨p, found⟩ := Option.isSome_iff_exists.1 ((kept.there ref).trans there)
        rw [Distributor.descriptor_of_eq_some found]
        refine Distributor.descriptor_of_eq_some ?_
        rw [Act.descriptor?_apply_of_change? rfl, if_pos rfl, found, Option.map_some]
      unfold Distributor.Off
      rw [after, Descriptor.handBack_owner, if_pos owner, Descriptor.handBack_status]
      exact ⟨rfl, off⟩

theorem off_disableAll (owned : m.dist.Owned) {line : Nat} (member : line ∈ lines)
    {ref : LineRef} (looked : m.dist.lineRef? v line = some ref) :
    (lines.foldl (disableLine (fun _ => []) v) m).dist.Off ref := by
  induction lines generalizing m with
  | nil => cases member
  | cons first rest ih =>
      have kept : Kept (fun _ => False) m.dist (disableLine (fun _ => []) v m first).dist :=
        .of_steps (steps_disableLine m first)
      rcases List.mem_cons.1 member with rfl | member
      · exact (Kept.of_steps (S := fun _ => False) (steps_disableAll _ v rest)).off not_false
          (off_disableLine owned looked)
      · exact ih (kept.alive owned) member ((kept.lineRef? v line).trans looked)

/-- Disabling lines again that are off makes calls, and changes nothing. -/
theorem dist_disableAll_of_off
    (off : ∀ line ∈ lines, ∀ ref, m.dist.lineRef? v line = some ref → m.dist.Off ref) :
    (lines.foldl (disableLine (fun _ => []) v) m).dist = m.dist := by
  induction lines generalizing m with
  | nil => rfl
  | cons line rest ih =>
      have first : (disableLine (fun _ => []) v m line).dist = m.dist := by
        cases looked : m.dist.lineRef? v line with
        | none => rw [disableLine_of_none looked]
        | some ref =>
            have there := (Distributor.lineRef?_eq_some_iff.1 looked).2.2
            obtain ⟨free, disabled⟩ := off line List.mem_cons_self ref looked
            have same : m.disabled ref = m := disabled_of_enabled_false there disabled
            rw [disableLine_of_some looked, same, dequeue_of_free _ free, dist_disablePhysical,
              dist_call]
      rw [List.foldl_cons, ih, first]
      rw [first]
      exact fun line member => off line (List.mem_cons_of_mem _ member)

end Lines

/-! ## The lines that are disabled afterwards -/

section Same

variable {a b : Machine σ} {v line : Nat} {ref : LineRef}

theorem dequeue_alone (owned : a.dist.Owned) :
    a.dequeue [] v ref line =
      (a.unlink ((a.dist.descriptor ref).owner.getD v) ref line).call
        (.remove ((a.dist.descriptor ref).owner.getD v) line) := by
  unfold dequeue
  rw [lockHolder_alone owned]

omit [Host σ] in
theorem dist_unlink_congr (same : a.dist = b.dist) (holder : Nat) (ref : LineRef) (line : Nat) :
    (a.unlink holder ref line).dist = (b.unlink holder ref line).dist := by
  unfold unlink
  rw [same]
  split
  · rw [dist_modify, dist_modify, same]
  · exact same

omit [Host σ] in
theorem calls_unlink (m : Machine σ) (holder : Nat) :
    (m.unlink holder ref line).calls = m.calls := by
  unfold unlink
  split <;> rfl

/-- The host is asked nothing, so the calls are those that the distributor decides. -/
theorem disableLine_congr (owned : a.dist.Owned) (same : a.dist = b.dist) (v line : Nat) :
    (disableLine (fun _ => []) v a line).dist = (disableLine (fun _ => []) v b line).dist ∧
      ∃ made, (disableLine (fun _ => []) v a line).calls = a.calls ++ made ∧
        (disableLine (fun _ => []) v b line).calls = b.calls ++ made := by
  cases looked : a.dist.lineRef? v line with
  | none =>
      rw [disableLine_of_none looked, disableLine_of_none (same ▸ looked)]
      exact ⟨same, [], by simp, by simp⟩
  | some ref =>
      have disabled : (a.disabled ref).dist = (b.disabled ref).dist :=
        congrArg (·.updateLine ref (Descriptor.setEnabled false)) same
      have kept : Kept (fun _ => False) a.dist (a.disabled ref).dist := kept_disabled
      have alive := kept.alive owned
      rw [disableLine_of_some looked, disableLine_of_some (same ▸ looked), dequeue_alone alive,
        dequeue_alone (disabled ▸ alive), ← disabled]
      have unlinked := dist_unlink_congr disabled
        (((a.disabled ref).dist.descriptor ref).owner.getD v) ref line
      simp only [dist_disablePhysical, calls_disablePhysical, dist_call, calls_call, calls_unlink,
        unlinked, List.append_assoc]
      exact ⟨trivial, _, rfl, rfl⟩

theorem disableAll_congr (owned : a.dist.Owned) (same : a.dist = b.dist) (v : Nat)
    (lines : List Nat) :
    (lines.foldl (disableLine (fun _ => []) v) a).dist =
        (lines.foldl (disableLine (fun _ => []) v) b).dist ∧
      ∃ made, (lines.foldl (disableLine (fun _ => []) v) a).calls = a.calls ++ made ∧
        (lines.foldl (disableLine (fun _ => []) v) b).calls = b.calls ++ made := by
  induction lines generalizing a b with
  | nil => exact ⟨same, [], by simp, by simp⟩
  | cons line rest ih =>
      obtain ⟨same, first, callsA, callsB⟩ := disableLine_congr owned same v line
      have kept : Kept (fun _ => False) a.dist (disableLine (fun _ => []) v a line).dist :=
        .of_steps (steps_disableLine a line)
      obtain ⟨same, later, moreA, moreB⟩ := ih (kept.alive owned) same
      refine ⟨same, first ++ later, ?_, ?_⟩
      · rw [List.foldl_cons, moreA, callsA, List.append_assoc]
      · rw [List.foldl_cons, moreB, callsB, List.append_assoc]

end Same

/-! ## Whole calls -/

/-- VCPU `v` raises `line` while `changes` slip in. -/
structure RaisesAmid (m : Machine σ) (v line : Nat) (ref : LineRef) (changes : List (Change σ))
    (after : Machine σ) : Prop where
  found : Found ref v changes m after
  /-- The line is raised once, where the changes have left it. -/
  outcome : m.injectAmid changes v line = after.inject v line
  /-- The priority that was read at the start is the one it has there. -/
  priority : after.dist.priorityOf v line = m.dist.priorityOf v line

/-- The machine in which `before` are done when VCPU `v` disables lines, and the turn of `ref`
has come. -/
def reaching (m : Machine σ) (v : Nat) (before : List Nat) (ref : LineRef) : Machine σ :=
  (before.foldl (disableLine (fun _ => []) v) m).disabled ref

/-- VCPU `v` disables the lines of `mask`, first `before`, then `line`, then others, while
`changes` slip in at `line`. -/
structure DisablesAmid (m : Machine σ) (v : Nat) (mask : Word) (rank : Nat) (before : List Nat)
    (line : Nat) (ref : LineRef) (changes : List (Change σ)) (after : Machine σ) : Prop where
  found : Found ref v changes (m.reaching v before ref) after
  accepted : (m.disableLinesAmid (fun other => if other = line then changes else []) v mask
    rank).1 = .ok ()
  /-- The distributor is as if the lines had been disabled where the changes have left it. -/
  dist : (m.disableLinesAmid (fun other => if other = line then changes else []) v mask
    rank).2.dist = (after.disableLines v mask rank).2.dist
  /-- From then on the calls are the same too; those for `before` were made earlier. -/
  calls : ∃ own, (m.disableLinesAmid (fun other => if other = line then changes else []) v mask
      rank).2.calls = after.calls ++ own ∧
    (after.disableLines v mask rank).2.calls =
      (before.foldl (disableLine (fun _ => []) v) after).calls ++ own
  /-- If `line` is the first of the mask, all is the same. -/
  first : before = [] →
    m.disableLinesAmid (fun other => if other = line then changes else []) v mask rank =
      after.disableLines v mask rank

section Mask

variable {m : Machine σ} {v line rank : Nat} {ref : LineRef} {mask : Word}
  {before behind : List Nat} {changes : List (Change σ)}

theorem raisesAmid (owned : m.dist.Owned) (resolved : m.dist.resolve v line = .ok ref)
    (slips : Slips ref changes m) : ∃ after, RaisesAmid m v line ref changes after := by
  obtain ⟨after, found, kept⟩ := found_amid v owned slips
  exact ⟨after, found, injectAmid_eq resolved found kept, kept.priorityOf v line⟩

/-- Changes of a line matter to the lines of a mask only in its own turn. -/
theorem foldl_disableLine_apart {lines : List Nat} (apart : ∀ other ∈ lines, other ≠ line)
    (s : Machine σ) :
    lines.foldl (disableLine (fun other => if other = line then changes else []) v) s =
      lines.foldl (disableLine (fun _ => []) v) s := by
  refine List.foldl_ext _ _ s fun s other member => ?_
  simp only [disableLine, if_neg (apart other member)]

theorem disableMask_amid (owned : m.dist.Owned) (looked : m.dist.lineRef? v line = some ref)
    (masked : maskedLines rank mask = .ok (before ++ line :: behind))
    (slips : Slips ref changes (m.reaching v before ref)) :
    ∃ after, Found ref v changes (m.reaching v before ref) after ∧ after.dist.Owned ∧
      (∀ w, (after.dist.vcpu? w).isSome = (m.dist.vcpu? w).isSome) ∧
      (before.foldl (disableLine (fun _ => []) v) after).dist = after.dist ∧
      m.disableMask (fun other => if other = line then changes else []) v mask rank =
        (.ok (), (line :: behind).foldl (disableLine (fun _ => []) v) after) := by
  obtain ⟨-, distinct, others⟩ := List.nodup_append.1 (nodup_maskedLines masked)
  have early : ∀ other ∈ before, other ≠ line :=
    fun other member => others other member line List.mem_cons_self
  have late : ∀ other ∈ behind, other ≠ line := by
    rintro other member rfl
    exact (List.nodup_cons.1 distinct).1 member
  unfold reaching at slips ⊢
  generalize reached : before.foldl (disableLine (fun _ => []) v) m = s at slips ⊢
  have course : Kept (fun _ => False) m.dist s.dist :=
    reached ▸ .of_steps (steps_disableAll m v before)
  obtain ⟨after, found, kept, done⟩ := disableLine_amid ((course.lineRef? v line).trans looked)
    (course.alive owned) (fun other => if other = line then changes else []) (by rwa [if_pos rfl])
  rw [if_pos rfl] at found
  refine ⟨after, found, kept.alive (course.alive owned),
    fun w => (kept.present w).trans (course.present w), ?_, ?_⟩
  · -- A line done before is off, and no handover of another line gives it an owner.
    refine dist_disableAll_of_off fun other member target found' => ?_
    rw [kept.lineRef?, course.lineRef?] at found'
    have apart : target ≠ ref := by
      rintro rfl
      have number := (Distributor.lineRef?_eq_some_iff.1 looked).1
      have number' := (Distributor.lineRef?_eq_some_iff.1 found').1
      exact early other member (number'.symm.trans number)
    exact kept.off apart (reached ▸ off_disableAll owned member found')
  · rw [disableMask_of_ok masked, List.foldl_append, List.foldl_cons, List.foldl_cons,
      foldl_disableLine_apart early, reached, done, foldl_disableLine_apart late]

theorem disablesAmid (owned : m.dist.Owned) (resolved : m.dist.resolve v line = .ok ref)
    (masked : maskedLines rank mask = .ok (before ++ line :: behind))
    (slips : Slips ref changes (m.reaching v before ref)) :
    ∃ after, DisablesAmid m v mask rank before line ref changes after := by
  obtain ⟨present, looked⟩ := Distributor.resolve_eq_ok_iff.1 resolved
  obtain ⟨after, found, alive, vcpus, again, done⟩ := disableMask_amid owned looked masked slips
  have amid : m.disableLinesAmid (fun other => if other = line then changes else []) v mask rank =
      (.ok (), (line :: behind).foldl (disableLine (fun _ => []) v) after) := by
    obtain ⟨vcpu, there⟩ := Option.isSome_iff_exists.1 present
    rw [disableLinesAmid, Distributor.requireVcpu_eq_ok_iff.2 there, ← done]
  have alone : after.disableLines v mask rank =
      (.ok (), (line :: behind).foldl (disableLine (fun _ => []) v)
        (before.foldl (disableLine (fun _ => []) v) after)) := by
    obtain ⟨vcpu, there⟩ := Option.isSome_iff_exists.1 ((vcpus v).trans present)
    rw [disableLines, disableLinesAmid, Distributor.requireVcpu_eq_ok_iff.2 there,
      ← List.foldl_append, ← disableMask_of_ok masked]
  obtain ⟨same, own, calls, calls'⟩ := disableAll_congr alive again.symm v (line :: behind)
  refine ⟨after, found, by rw [amid], ?_, ⟨own, ?_, ?_⟩, ?_⟩
  · rw [amid, alone, same]
  · rw [amid, calls]
  · rw [alone, calls']
  · rintro rfl
    rw [amid, alone, List.foldl_nil]

end Mask

/-- Where lists and owners agree, raising and disabling a line that changes hands while its
holder is looked for is raising and disabling it in the hands it ends in. In the state after
a history, nothing slips in, and the holder is found at once. -/
theorem undisturbed_by_handovers :
    (∀ {m : Machine σ} {v line : Nat} {ref : LineRef} {changes : List (Change σ)},
      Agreement m.dist → m.dist.resolve v line = .ok ref →
        (Slips ref changes m → ∃ after, RaisesAmid m v line ref changes after) ∧
        ∀ {mask : Word} {rank : Nat} {before behind : List Nat},
          maskedLines rank mask = .ok (before ++ line :: behind) →
          Slips ref changes (m.reaching v before ref) →
          ∃ after, DisablesAmid m v mask rank before line ref changes after) ∧
    ∀ {config : Config} {host : σ} {m : Machine σ}, Machine.start config host = .ok m →
      ∀ (operations : List Operation) (ref : LineRef) (v : Nat),
        (m.run operations).lockHolder v ref [] =
          (some (((m.run operations).dist.descriptor ref).owner.getD v), m.run operations) := by
  constructor
  · intro m v line ref changes agreement resolved
    exact ⟨raisesAmid agreement.owned resolved, disablesAmid agreement.owned resolved⟩
  · intro config host m started operations ref v
    exact lockHolder_alone (consistent_run started operations).agreement.owned ref v

/-- VCPU 1 holds line 40. While VCPU 0 looks for the holder, VCPU 1 completes the line and it
is raised on VCPU 2; while VCPU 0 looks again, VCPU 2 drops all it has. So VCPU 0 claims the
line; and if it disables lines 39 to 41 instead, there is no list to take line 40 off. -/
theorem undisturbed_by_handovers_twice :
    let m : Machine SteadyHost := .fresh (.forHardware 3 64) { up := [0, 1, 2] }
    let s := m.run [.initVcpu 0, .initVcpu 1, .initVcpu 2, .inject 1 40]
    let changes : List (Change SteadyHost) :=
      [[.retire 1 40, .inject 2 40], [.clearPending 2]].map fun operations m => m.run operations
    (∃ after, RaisesAmid s 0 40 (.shared 8) changes after) ∧
      (s.injectAmid changes 0 40).2.dist.onList 0 40 = true ∧
      (∃ after, DisablesAmid s 0 0x380 1 [39] 40 (.shared 8) changes after) ∧
      (s.lockHolder 0 (.shared 8) []).1 = some 1 := by
  intro m s changes
  have started : Machine.start (.forHardware 3 64) ({ up := [0, 1, 2] } : SteadyHost) = .ok m := rfl
  have agreement : Agreement s.dist := (consistent_run started _).agreement
  have resolved : s.dist.resolve 0 40 = .ok (.shared 8) := by decide +kernel
  have masked : maskedLines 1 0x380 = .ok ([39] ++ 40 :: [41]) := by decide +kernel
  have slips : ∀ m : Machine SteadyHost, Slips (.shared 8) changes m :=
    slips_runs (by simp [Operation.Concerns, LineRef.SeenBy, LineRef.number, linesPerRank])
  obtain ⟨raises, disables⟩ := undisturbed_by_handovers.1 agreement resolved
  refine ⟨raises (slips s), by decide +kernel, disables masked (slips _), ?_⟩
  rw [undisturbed_by_handovers.2 started _ (.shared 8) 0]
  decide +kernel

end Machine

end VirtualGic
