/-
# Proofs.Dequeuing — what is left of the lines that are disabled

A line that is disabled is taken off the list it is on, whichever VCPU that list belongs
to, and out of the queues of the VCPU that held it. A mask disables up to 32 lines one
after the other, and each can be on another list or on none.

`Dequeued` says what a stretch of disabled lines does to descriptors, lists, registers and
calls. It holds of one line (`dequeued_disableLine`), and stretches of different lines
compose (`Dequeued.append`), so it holds of a whole mask. `dequeues_run` reads it by the
bits of the mask.
-/
import VirtualGic.Proofs.Addressing
import VirtualGic.Proofs.Apart
import VirtualGic.Proofs.Deliveries
import Mathlib.Data.List.Basic

namespace VirtualGic

set_option autoImplicit false

/-! ## Entries and the lines they stand for -/

/-- The reference that VCPU `w` sees under the number of an entry. -/
def Entry.ref (w : Nat) (entry : Entry) : LineRef :=
  if low : entry.line < 32 then .banked w ⟨entry.line, low⟩
  else .shared (entry.line - linesPerRank)

@[simp] theorem Entry.number_ref (w : Nat) (entry : Entry) :
    (entry.ref w).number = entry.line := by
  unfold ref
  split
  · rfl
  · simp only [LineRef.number, linesPerRank]
    omega

theorem Entry.seenBy_ref (w : Nat) (entry : Entry) : (entry.ref w).SeenBy w := by
  unfold ref
  split
  · exact rfl
  · trivial

theorem Entry.ref_eq {w : Nat} {entry : Entry} {ref : LineRef} (seen : ref.SeenBy w)
    (number : ref.number = entry.line) : entry.ref w = ref :=
  LineRef.eq_of_seenBy (entry.seenBy_ref w) seen ((entry.number_ref w).trans number.symm)

namespace Inflight

/-- The list without some of its entries. -/
def without (gone : Entry → Bool) (list : Inflight) : Inflight :=
  { list with entries := list.entries.filter (!gone ·) }

theorem mem_without {gone : Entry → Bool} {list : Inflight} {entry : Entry} :
    entry ∈ (list.without gone).entries ↔ entry ∈ list.entries ∧ gone entry = false := by
  simp [without]

theorem without_of_forall {gone : Entry → Bool} {list : Inflight}
    (kept : ∀ entry ∈ list.entries, gone entry = false) : list.without gone = list := by
  have same : list.entries.filter (!gone ·) = list.entries :=
    List.filter_eq_self.2 fun entry member => by simp [kept entry member]
  simp only [without, same]

theorem without_without (first second : Entry → Bool) (list : Inflight) :
    (list.without first).without second =
      list.without fun entry => first entry || second entry := by
  simp only [without, List.filter_filter, Bool.not_or, Bool.and_comm]

theorem without_congr {first second : Entry → Bool} {list : Inflight}
    (same : ∀ entry ∈ list.entries, first entry = second entry) :
    list.without first = list.without second := by
  have filters : list.entries.filter (!first ·) = list.entries.filter (!second ·) :=
    List.filter_congr fun entry member => by rw [same entry member]
  simp only [without, filters]

/-- On a list without repetitions, taking a line off drops every entry of it. -/
theorem erase_eq_without {list : Inflight} (distinct : list.lines.Nodup) (line : Nat) :
    list.erase line = list.without (·.line == line) := by
  obtain ⟨capacity, entries⟩ := list
  simp only [erase, without, mk.injEq, true_and]
  replace distinct : (entries.map (·.line)).Nodup := distinct
  induction entries with
  | nil => rfl
  | cons head rest ih =>
      obtain ⟨single, distinct⟩ := List.nodup_cons.1 distinct
      by_cases same : head.line = line
      · have gone : ∀ entry ∈ rest, (!(entry.line == line)) = true := by
          intro entry member
          have other : entry.line ≠ line :=
            fun again => single (List.mem_map.2 ⟨entry, member, again.trans same.symm⟩)
          simpa using other
        rw [List.eraseP_cons_of_pos (by simpa using same),
          List.filter_cons_of_neg (by simpa using same), List.filter_eq_self.2 gone]
      · rw [List.eraseP_cons_of_neg (by simpa using same),
          List.filter_cons_of_pos (by simpa using same), ih distinct]

end Inflight

/-! ## One descriptor -/

namespace Descriptor

/-- The line disabled and on no list; one that was on a list loses its other flags too. -/
def dequeued (p : Descriptor) : Descriptor :=
  { p with
    owner := none
    status := if p.isInflight then {} else { p.status with enabled := false } }

theorem dequeued_of_free {p : Descriptor} (free : p.owner = none) :
    p.setEnabled false = p.dequeued := by
  simp only [dequeued, isInflight, free, setEnabled, Option.isSome_none, Bool.false_eq_true,
    if_false]

theorem dequeued_of_held {p : Descriptor} {holder : Nat} (held : p.owner = some holder) :
    (p.setEnabled false).handBack holder = p.dequeued := by
  simp only [handBack, settle, release, setEnabled, held, if_true, dequeued, isInflight,
    Option.isSome_some, Status.settled]

/-- What the collaborators are told when `v` disables the line. -/
def dequeues (v : Nat) (p : Descriptor) : List Call :=
  .remove (p.owner.getD v) p.line :: p.phys.toList.map .disablePhysical

end Descriptor

theorem LineRef.named_append {v : Nat} {first second : List Nat} {ref : LineRef} :
    ref.Named v (first ++ second) ↔ ref.Named v first ∨ ref.Named v second := by
  simp only [Named, List.mem_append, and_or_left]

instance (v rank : Nat) (mask : Word) (ref : LineRef) : Decidable (ref.Selected v rank mask) :=
  decidable_of_iff _ LineRef.selected_iff.symm

/-- In a rank that there is, the lines of a mask are the bits of the mask counted from the
first line of the rank. -/
theorem maskedLines_of_low {rank : Nat} (mask : Word) (low : rank < 32) :
    maskedLines rank mask =
      .ok (((List.range 32).filter mask.getLsbD).map fun bit => linesPerRank * rank + bit) := by
  obtain ⟨lines, fits⟩ := Machine.maskedLines_ok mask low
  have small : ∀ bit ∈ (List.range 32).filter mask.getLsbD,
      (rank * linesPerRank + bit) % range32 = linesPerRank * rank + bit := by
    intro bit member
    have inside := List.mem_range.1 (List.mem_filter.1 member).1
    simp only [linesPerRank, range32]
    omega
  rw [fits, ← List.map_congr_left small, ← SetBits.toList_eq_filter ⟨mask⟩]
  unfold maskedLines at fits
  split at fits
  · cases fits
  · exact fits.symm

theorem LineRef.selected_iff_named {v rank : Nat} {mask : Word} {ref : LineRef} :
    ref.Named v (((List.range 32).filter mask.getLsbD).map fun bit => linesPerRank * rank + bit) ↔
      ref.Selected v rank mask := by
  refine and_congr_right fun _ => ?_
  simp only [List.mem_map, List.mem_filter, List.mem_range]
  constructor
  · rintro ⟨bit, ⟨-, set⟩, number⟩
    exact ⟨bit, set, number.symm⟩
  · rintro ⟨bit, set, number⟩
    exact ⟨bit, ⟨BitVec.lt_of_getLsbD set, set⟩, number.symm⟩

namespace Machine

variable {σ : Type}

/-! ## Stretches of lines -/

/-- VCPU `v` disables `lines` between `m` and `m'`. -/
structure Dequeued (v : Nat) (lines : List Nat) (m m' : Machine σ) : Prop where
  registers : m'.dist.registers = m.dist.registers
  descriptors : ∀ ref : LineRef, m'.dist.descriptor? ref =
    if ref.Named v lines then (m.dist.descriptor? ref).map Descriptor.dequeued
    else m.dist.descriptor? ref
  lists : ∀ w, m'.dist.inflight? w =
    (m.dist.inflight? w).map (·.without fun entry => (entry.ref w).Named v lines)
  calls : m'.calls =
    m.calls ++ (lines.filterMap (m.dist.line? v)).flatMap (Descriptor.dequeues v)

namespace Dequeued

variable {v : Nat} {first second : List Nat} {m m' m'' : Machine σ}

/-- A line that has no descriptor is on no list, so nothing is to be done for it. -/
theorem absent (consistent : Consistent m.dist) {line : Nat}
    (absent : m.dist.lineRef? v line = none) : Dequeued v [line] m m := by
  have nowhere : ∀ ref : LineRef, ref.Named v [line] → m.dist.descriptor? ref = none := by
    rintro ref ⟨seen, number⟩
    cases found : m.dist.descriptor? ref with
    | none => rfl
    | some p =>
        have looked : m.dist.lineRef? v line = some ref :=
          Distributor.lineRef?_eq_some_iff.2 ⟨List.mem_singleton.1 number, seen, by simp [found]⟩
        rw [absent] at looked
        cases looked
  refine ⟨rfl, fun ref => ?_, fun w => ?_, ?_⟩
  · split
    · rename_i named
      rw [nowhere ref named]
      rfl
    · rfl
  · cases held : m.dist.inflight? w with
    | none => rfl
    | some list =>
        rw [Option.map_some, Inflight.without_of_forall]
        intro entry member
        obtain ⟨ref, p, number, seen, found, -⟩ := consistent.listed ⟨list, held, member⟩
        rw [Entry.ref_eq seen number, decide_eq_false_iff_not]
        intro named
        rw [nowhere ref named] at found
        cases found
  · simp only [List.filterMap_cons, Distributor.line?, absent, Option.bind_none,
      List.filterMap_nil, List.flatMap_nil, List.append_nil]

/-- The list that loses the entry is the one of the VCPU that owns the line. Every other
list is filtered too, and has nothing to lose: an entry of the line would make its VCPU
the owner. -/
theorem of_ref (consistent : Consistent m.dist) {ref : LineRef} {p : Descriptor}
    (seen : ref.SeenBy v) (found : m.dist.descriptor? ref = some p)
    (registers : m'.dist.registers = m.dist.registers)
    (descriptors : ∀ other, m'.dist.descriptor? other =
      if ref = other then (m.dist.descriptor? other).map Descriptor.dequeued
      else m.dist.descriptor? other)
    (lists : ∀ w, m'.dist.inflight? w =
      if p.owner = some w then (m.dist.inflight? w).map (·.erase ref.number)
      else m.dist.inflight? w)
    (calls : m'.calls = m.calls ++ p.dequeues v) : Dequeued v [ref.number] m m' := by
  have named : ∀ other : LineRef, other.Named v [ref.number] ↔ ref = other := by
    intro other
    constructor
    · rintro ⟨seen', number⟩
      exact LineRef.eq_of_seenBy seen seen' (List.mem_singleton.1 number).symm
    · rintro rfl
      exact ⟨seen, List.mem_singleton_self _⟩
  refine ⟨registers, fun other => ?_, fun w => ?_, ?_⟩
  · rw [descriptors]
    simp only [named]
  · rw [lists]
    cases held : m.dist.inflight? w with
    | none => split <;> rfl
    | some list =>
        split
        · rename_i owned
          rw [Option.map_some, Option.map_some,
            Inflight.erase_eq_without (consistent.distinct held)]
          refine congrArg some (Inflight.without_congr fun entry _ => ?_)
          have seen' : ref.SeenBy w := (consistent.owned found owned).1
          rw [Bool.beq_eq_decide_eq, decide_eq_decide, named]
          constructor
          · intro same
            exact (Entry.ref_eq seen' same.symm).symm
          · intro same
            rw [← entry.number_ref w, ← same]
        · rename_i other
          rw [Option.map_some, Inflight.without_of_forall]
          intro entry member
          rw [decide_eq_false_iff_not, named]
          intro same
          have number : ref.number = entry.line := same ▸ entry.number_ref w
          exact other (consistent.owner_of_lists ⟨list, held, member⟩ number
            (same ▸ entry.seenBy_ref w) found).1
  · have looked : m.dist.line? v ref.number = some p :=
      Distributor.line?_eq_some_iff.2 ⟨ref, rfl, seen, found⟩
    rw [calls]
    simp only [List.filterMap_cons, looked, List.filterMap_nil, List.flatMap_cons,
      List.flatMap_nil, List.append_nil]

theorem nil (m : Machine σ) : Dequeued v [] m m := by
  refine ⟨rfl, fun ref => ?_, fun w => ?_, by simp⟩
  · rw [if_neg fun named => List.not_mem_nil named.2]
  · cases m.dist.inflight? w with
    | none => rfl
    | some list =>
        rw [Option.map_some, Inflight.without_of_forall]
        intro entry _
        exact decide_eq_false fun named => List.not_mem_nil named.2

/-- A line that is not in the stretch has the descriptor it had. -/
theorem line?_of_not_mem (stretch : Dequeued v first m m') {line : Nat} (outside : line ∉ first) :
    m'.dist.line? v line = m.dist.line? v line := by
  refine Option.ext fun p => ?_
  rw [Distributor.line?_eq_some_iff, Distributor.line?_eq_some_iff]
  refine exists_congr fun ref => and_congr_right fun number => and_congr_right fun _ => ?_
  rw [stretch.descriptors, if_neg fun named => outside (number ▸ named.2)]

/-- No VCPU has a line of the stretch on its list. -/
theorem unlisted (stretch : Dequeued v first m m') {ref : LineRef} (named : ref.Named v first)
    {w : Nat} (seen : ref.SeenBy w) : m'.dist.onList w ref.number = false := by
  rw [Bool.eq_false_iff, ne_eq, Distributor.onList_iff]
  rintro ⟨entry, ⟨list, held, member⟩, number⟩
  rw [stretch.lists] at held
  obtain ⟨old, -, rfl⟩ := Option.map_eq_some_iff.1 held
  have kept := of_decide_eq_false (Inflight.mem_without.1 member).2
  exact kept (Entry.ref_eq seen number.symm ▸ named)

theorem append (one : Dequeued v first m m') (two : Dequeued v second m' m'')
    (apart : List.Disjoint first second) : Dequeued v (first ++ second) m m'' := by
  refine ⟨two.registers.trans one.registers, fun ref => ?_, fun w => ?_, ?_⟩
  · rw [two.descriptors, one.descriptors]
    by_cases here : ref.Named v first
    · have later : ¬ ref.Named v second := fun named => apart here.2 named.2
      rw [if_neg later, if_pos here, if_pos (LineRef.named_append.2 (.inl here))]
    · simp only [LineRef.named_append, here, false_or, if_false]
  · rw [two.lists, one.lists]
    cases m.dist.inflight? w with
    | none => rfl
    | some list =>
        simp only [Option.map_some, Inflight.without_without, LineRef.named_append,
          Bool.decide_or]
  · have same : second.filterMap (m'.dist.line? v) = second.filterMap (m.dist.line? v) :=
      List.filterMap_congr fun line member => one.line?_of_not_mem fun before => apart before member
    rw [two.calls, one.calls, same, List.filterMap_append, List.flatMap_append,
      List.append_assoc]

end Dequeued

variable [Host σ]

/-! ## A whole mask -/

theorem dist_disablePhysical (m : Machine σ) (ref : LineRef) :
    (m.disablePhysical ref).dist = m.dist :=
  (steps_disablePhysical m ref).dist_of_idles

theorem calls_disablePhysical (m : Machine σ) (ref : LineRef) :
    (m.disablePhysical ref).calls =
      m.calls ++ (m.dist.descriptor ref).phys.toList.map .disablePhysical := by
  unfold disablePhysical
  cases (m.dist.descriptor ref).phys with
  | none => simp
  | some irq => simp

/-- The machine in which the guest has disabled the line, and nothing else is done yet. -/
def disabled (m : Machine σ) (ref : LineRef) : Machine σ :=
  m.modify (·.updateLine ref (Descriptor.setEnabled false))

omit [Host σ] in
theorem dist_disabled (m : Machine σ) (ref : LineRef) :
    (m.disabled ref).dist = m.dist.updateLine ref (Descriptor.setEnabled false) := rfl

theorem disableLine_of_some {m : Machine σ} {v line : Nat} {ref : LineRef}
    (looked : m.dist.lineRef? v line = some ref) (changes : Nat → List (Change σ)) :
    disableLine changes v m line =
      ((m.disabled ref).dequeue (changes line) v ref line).disablePhysical ref := by
  unfold disableLine
  rw [looked]
  rfl

theorem disableLine_of_none {m : Machine σ} {v line : Nat}
    (absent : m.dist.lineRef? v line = none) (changes : Nat → List (Change σ)) :
    disableLine changes v m line = m := by
  unfold disableLine
  rw [absent]

section OneLine

variable {m : Machine σ} {v : Nat} {ref : LineRef} {p : Descriptor}

omit [Host σ] in
theorem descriptor?_disabled (found : m.dist.descriptor? ref = some p) :
    (m.disabled ref).dist.descriptor? ref = some (p.setEnabled false) := by
  rw [dist_disabled, Distributor.descriptor?_updateLine_self, found, Option.map_some]

theorem dequeued_of_free (consistent : Consistent m.dist) (seen : ref.SeenBy v)
    (found : m.dist.descriptor? ref = some p) (free : p.owner = none) :
    Dequeued v [ref.number] m
      (((m.disabled ref).dequeue [] v ref ref.number).disablePhysical ref) := by
  have number := consistent.numbered found
  have disabled := Distributor.descriptor_of_eq_some (descriptor?_disabled found)
  rw [dequeue_of_free _ (disabled ▸ free)]
  refine .of_ref consistent seen found ?_ (fun other => ?_) (fun w => ?_) ?_
  · rw [dist_disablePhysical, dist_call, dist_disabled, Distributor.registers_updateLine]
  · rw [dist_disablePhysical, dist_call, dist_disabled, Distributor.descriptor?_updateLine]
    split
    · rename_i same
      rw [← same, found, Option.map_some, Option.map_some, Descriptor.dequeued_of_free free]
    · rfl
  · rw [dist_disablePhysical, dist_call, dist_disabled, Distributor.inflight?_updateLine,
      if_neg (by simp [free])]
  · rw [calls_disablePhysical, calls_call, dist_call, disabled, Descriptor.dequeues, free, number,
      List.append_assoc]
    rfl

theorem dequeued_of_held (consistent : Consistent m.dist) (seen : ref.SeenBy v)
    (found : m.dist.descriptor? ref = some p) {holder : Nat} (held : p.owner = some holder) :
    Dequeued v [ref.number] m
      (((m.disabled ref).dequeue [] v ref ref.number).disablePhysical ref) := by
  have number := consistent.numbered found
  have disabled := Distributor.descriptor_of_eq_some (descriptor?_disabled found)
  have alive : ((m.disabled ref).dist.vcpu? holder).isSome = true := by
    rw [dist_disabled, vcpu?_isSome_updateLine]
    exact (consistent.owned found held).2.present
  rw [dequeue_of_held (disabled ▸ held) alive]
  have unlinked : ∀ other, ((Act.unlink holder ref).apply (m.disabled ref).dist).descriptor?
      other = if ref = other then (m.dist.descriptor? other).map Descriptor.dequeued
        else m.dist.descriptor? other := by
    intro other
    rw [Act.descriptor?_apply_of_change? rfl, dist_disabled, Distributor.descriptor?_updateLine]
    split
    · rename_i same
      rw [← same, found, Option.map_some, Option.map_some, Option.map_some,
        Descriptor.dequeued_of_held held]
    · rfl
  have last : ((Act.unlink holder ref).apply (m.disabled ref).dist).descriptor ref =
      p.dequeued := by
    refine Distributor.descriptor_of_eq_some ?_
    rw [unlinked, if_pos rfl, found, Option.map_some]
  refine .of_ref consistent seen found ?_ (fun other => ?_) (fun w => ?_) ?_
  · rw [dist_disablePhysical, dist_call, dist_modify, Act.apply, dist_disabled,
      Distributor.registers_updateInflight, Distributor.registers_updateLine,
      Distributor.registers_updateLine]
  · rw [dist_disablePhysical, dist_call, dist_modify, unlinked]
  · rw [dist_disablePhysical, dist_call, dist_modify, Act.apply, dist_disabled,
      Distributor.inflight?_updateLine_updateInflight, Distributor.inflight?_updateLine, held]
    simp only [Option.some.injEq]
  · rw [calls_disablePhysical, calls_call, dist_call, dist_modify, last, Descriptor.dequeues, held,
      number, List.append_assoc]
    rfl

end OneLine

theorem dequeued_disableLine {m : Machine σ} (consistent : Consistent m.dist) (v line : Nat) :
    Dequeued v [line] m (disableLine (fun _ => []) v m line) := by
  cases looked : m.dist.lineRef? v line with
  | none =>
      rw [disableLine_of_none looked]
      exact .absent consistent looked
  | some ref =>
      obtain ⟨rfl, seen, there⟩ := Distributor.lineRef?_eq_some_iff.1 looked
      obtain ⟨p, found⟩ := Option.isSome_iff_exists.1 there
      rw [disableLine_of_some looked]
      cases owner : p.owner with
      | none => exact dequeued_of_free consistent seen found owner
      | some holder => exact dequeued_of_held consistent seen found owner

theorem disableMask_of_ok {mask : Word} {rank : Nat} {lines : List Nat}
    (masked : maskedLines rank mask = .ok lines) (changes : Nat → List (Change σ)) (v : Nat)
    (m : Machine σ) :
    m.disableMask changes v mask rank = (.ok (), lines.foldl (disableLine changes v) m) := by
  unfold disableMask
  rw [masked]

theorem dequeued_disableAll {m : Machine σ} (consistent : Consistent m.dist) (v : Nat)
    {lines : List Nat} (distinct : lines.Nodup) :
    Dequeued v lines m (lines.foldl (disableLine (fun _ => []) v) m) := by
  induction lines generalizing m with
  | nil => exact .nil m
  | cons line rest ih =>
      obtain ⟨single, distinct⟩ := List.nodup_cons.1 distinct
      have still := (steps_disableLine m (v := v) line).consistent consistent
      exact (dequeued_disableLine consistent v line).append (ih still distinct)
        (List.singleton_disjoint.2 single)

/-- Disabling the lines of rank `rank` at the bits of `mask`, from VCPU `v`. -/
structure Dequeues (s : Machine σ) (v : Nat) (mask : Word) (rank : Nat) : Prop where
  accepted : (s.disableLines v mask rank).1 = .ok ()
  /-- A line of the mask is not enabled and has no owner, and nothing else of its delivery
  state is left if it was inflight. -/
  selected : ∀ {ref : LineRef} {p : Descriptor}, ref.Selected v rank mask →
    s.dist.descriptor? ref = some p →
    (s.disableLines v mask rank).2.dist.descriptor? ref = some p.dequeued
  /-- No VCPU has such a line on its list. -/
  unlisted : ∀ {ref : LineRef}, ref.Selected v rank mask → ∀ w, ref.SeenBy w →
    (s.disableLines v mask rank).2.dist.onList w ref.number = false
  others : ∀ {ref : LineRef}, ¬ ref.Selected v rank mask →
    (s.disableLines v mask rank).2.dist.descriptor? ref = s.dist.descriptor? ref
  registers : (s.disableLines v mask rank).2.dist.registers = s.dist.registers
  /-- A list loses the entries of such lines, and keeps the others in their order. -/
  lists : ∀ w, (s.disableLines v mask rank).2.dist.inflight? w =
    (s.dist.inflight? w).map (·.without fun entry => (entry.ref w).Selected v rank mask)
  /-- For each bit in turn, the holder of the line and its physical interrupt are told. -/
  calls : (s.disableLines v mask rank).2.calls = s.calls ++
    (((List.range 32).filter mask.getLsbD).filterMap fun bit =>
      s.dist.line? v (linesPerRank * rank + bit)).flatMap (Descriptor.dequeues v)

theorem dequeues_of_consistent {s : Machine σ} (consistent : Consistent s.dist) {v : Nat}
    (present : (s.dist.vcpu? v).isSome = true) (mask : Word) {rank : Nat} (low : rank < 32) :
    s.Dequeues v mask rank := by
  obtain ⟨vcpu, there⟩ := Option.isSome_iff_exists.1 present
  have masked := maskedLines_of_low mask low
  have done : s.disableLines v mask rank =
      (.ok (), (((List.range 32).filter mask.getLsbD).map fun bit =>
        linesPerRank * rank + bit).foldl (disableLine (fun _ => []) v) s) := by
    unfold disableLines disableLinesAmid
    rw [Distributor.requireVcpu_eq_ok_iff.2 there]
    exact disableMask_of_ok masked _ v s
  have stretch := dequeued_disableAll consistent v (nodup_maskedLines masked)
  have descriptors := stretch.descriptors
  have lists := stretch.lists
  have calls := stretch.calls
  simp only [LineRef.selected_iff_named] at descriptors lists
  rw [List.filterMap_map] at calls
  refine ⟨?_, ?_, ?_, ?_, ?_, ?_, ?_⟩
  · rw [done]
  · intro ref p named found
    rw [done, descriptors, if_pos named, found, Option.map_some]
  · intro ref named w seen
    rw [done]
    exact stretch.unlisted (LineRef.selected_iff_named.2 named) seen
  · intro ref other
    rw [done, descriptors, if_neg other]
  · rw [done, stretch.registers]
  · intro w
    rw [done, lists]
  · rw [done, calls]
    rfl

/-- After every history, disabling lines takes them off the lists of whoever holds them, and
leaves everything else as it is. -/
theorem dequeues_run {config : Config} {host : σ} {m : Machine σ}
    (started : Machine.start config host = .ok m) (operations : List Operation) {v : Nat}
    (present : ((m.run operations).dist.vcpu? v).isSome = true) (mask : Word) {rank : Nat}
    (within : rank ≤ config.sharedRanks) : (m.run operations).Dequeues v mask rank := by
  have bounded := Config.lines_of_validate (start_eq_ok_iff.1 started).1
  refine dequeues_of_consistent (consistent_run started operations) present mask ?_
  simp only [linesPerRank, maxLines] at bounded
  simp only [Config.sharedRanks, linesPerRank] at within
  omega

/-- Line 40 is inflight on VCPU 1 and backed by an interrupt, line 41 on VCPU 0, line 42
nowhere, and line 43 is not named. -/
theorem dequeues_run_several_holders :
    let m : Machine SteadyHost := .fresh (.forHardware 2 64) { up := [0, 1] }
    let s := m.run [.initVcpu 0, .initVcpu 1, .routePhysical 0 40 77, .inject 1 40, .inject 0 41,
      .inject 1 43]
    s.Dequeues 0 0x700 1 ∧
      (s.disableLines 0 0x700 1).2.calls = s.calls ++
        [.remove 1 40, .disablePhysical 77, .remove 0 41, .remove 0 42] ∧
      ((s.disableLines 0 0x700 1).2.dist.inflight? 1).map (·.lines) = some [43] := by
  intro m s
  have started : Machine.start (.forHardware 2 64) ({ up := [0, 1] } : SteadyHost) = .ok m := rfl
  exact ⟨dequeues_run started _ (by decide +kernel) _ (by decide), by decide +kernel,
    by decide +kernel⟩

end Machine

end VirtualGic
