/-
# Proofs.Apart — a distributor without the delivery of one line

While a line is inflight it shows in two places. Its descriptor has an owner, a snapshot
and delivery flags, and the list of the owner has an entry. `Distributor.without` takes
both away, and leaves a distributor in which the line was never raised.

Nothing else looks at these two places: an act that is not about the line does to the
distributor without it what it does to the one with it (`Apart.apply_without`). Lists must
be sorted for that, or the entry of the line could stand in the way of an insertion. The
acts of the line's own delivery leave what is left without it alone, and once the line is
idle again nothing but its snapshot is missing (`Apart.without_idle`).
-/
import VirtualGic.Proofs.Order

namespace VirtualGic

set_option autoImplicit false

namespace Distributor

/-! ## A distributor is what can be read from it -/

theorem vcpu?_of_readings {d d' : Distributor} {v : Nat}
    (ranks : d'.rank? v 0 = d.rank? v 0)
    (lines : ∀ line, d'.descriptor? (.banked v line) = d.descriptor? (.banked v line))
    (lists : d'.inflight? v = d.inflight? v) : d'.vcpu? v = d.vcpu? v := by
  simp only [rank?, descriptor?, inflight?] at ranks lines lists
  cases here : d'.vcpu? v with
  | none =>
      rw [here] at ranks
      exact (Option.map_eq_none_iff.1 ranks.symm).symm
  | some vcpu' =>
      rw [here] at ranks lines lists
      obtain ⟨vcpu, there, rank⟩ := Option.map_eq_some_iff.1 ranks.symm
      rw [there] at lines lists ⊢
      have line : vcpu'.lines = vcpu.lines :=
        Vector.ext fun i inside => Option.some.inj (lines ⟨i, inside⟩)
      obtain ⟨rank', lines', inflight'⟩ := vcpu'
      obtain ⟨rank'', lines'', inflight''⟩ := vcpu
      obtain rfl : lines' = lines'' := line
      obtain rfl : inflight' = inflight'' := Option.some.inj lists
      rw [show rank' = rank'' from rank.symm]

theorem ext_of_readings {d d' : Distributor} (shape : d'.shape = d.shape)
    (enabled : d'.enabled = d.enabled) (ranks : ∀ v index, d'.rank? v index = d.rank? v index)
    (lines : ∀ ref, d'.descriptor? ref = d.descriptor? ref)
    (lists : ∀ v, d'.inflight? v = d.inflight? v) : d' = d := by
  have vcpus : ∀ v, d'.vcpu? v = d.vcpu? v := fun v =>
    vcpu?_of_readings (ranks v 0) (fun line => lines (.banked v line)) (lists v)
  have sharedRanks : ∀ index : Nat, d'.sharedRanks[index]? = d.sharedRanks[index]? :=
    fun index => ranks 0 (index + 1)
  have sharedLines : ∀ index : Nat, d'.sharedLines[index]? = d.sharedLines[index]? :=
    fun index => lines (.shared index)
  obtain ⟨config', enabled', sharedRanks', sharedLines', vcpus'⟩ := d'
  obtain ⟨config, on, sharedRanks₀, sharedLines₀, vcpus₀⟩ := d
  simp only [Distributor.shape, Prod.mk.injEq] at shape
  simp only [mk.injEq]
  refine ⟨shape.1, enabled, Array.ext_getElem? sharedRanks, Array.ext_getElem? sharedLines,
    Array.ext shape.2.2.2 fun i inside inside' => ?_⟩
  simpa [vcpu?, inside, inside'] using vcpus i

/-- All but the delivery of lines: the shape, whether the guest has enabled the
distributor, and the ranks. -/
def registers (d : Distributor) :
    (Config × Nat × Nat × Nat) × Bool × (Nat → Nat → Option Rank) :=
  (d.shape, d.enabled, d.rank?)

@[simp] theorem registers_updateLine (d : Distributor) (ref : LineRef)
    (f : Descriptor → Descriptor) : (d.updateLine ref f).registers = d.registers := by
  have ranks : (d.updateLine ref f).rank? = d.rank? :=
    funext fun v => funext fun index => rank?_updateLine d ref f v index
  rw [registers, shape_updateLine, enabled_updateLine, ranks, registers]

@[simp] theorem registers_updateInflight (d : Distributor) (v : Nat) (f : Inflight → Inflight) :
    (d.updateInflight v f).registers = d.registers := by
  have ranks : (d.updateInflight v f).rank? = d.rank? :=
    funext fun w => funext fun index => rank?_updateInflight d v f w index
  rw [registers, shape_updateInflight, ranks, registers]
  rfl

@[simp] theorem registers_dropInflight (d : Distributor) (v : Nat) :
    (d.dropInflight v).registers = d.registers :=
  dropInflight_kept registers_updateLine registers_updateInflight d v

/-- Where only the delivery of lines can differ, descriptors and lists decide. -/
theorem ext_of_delivery {d d' : Distributor} (registers : d'.registers = d.registers)
    (lines : ∀ ref, d'.descriptor? ref = d.descriptor? ref)
    (lists : ∀ v, d'.inflight? v = d.inflight? v) : d' = d := by
  simp only [Distributor.registers, Prod.mk.injEq] at registers
  obtain ⟨shape, enabled, ranks⟩ := registers
  exact ext_of_readings shape enabled (fun v index => by rw [ranks]) lines lists

end Distributor

/-! ## Insertion and removal -/

namespace Entry

/-- Ascending priority, as lists have it. -/
abbrev Ascending (entries : List Entry) : Prop :=
  entries.Pairwise fun a b => a.priority ≤ b.priority

variable {entry : Entry} {entries : List Entry}

theorem ascending_insertInto (sorted : Ascending entries) :
    Ascending (entry.insertInto entries) := by
  induction entries with
  | nil => exact List.pairwise_singleton _ _
  | cons head rest ih =>
      obtain ⟨first, sorted'⟩ := List.pairwise_cons.1 sorted
      simp only [insertInto]
      split
      · rename_i less
        refine List.pairwise_cons.2 ⟨fun other member => ?_, sorted⟩
        rcases List.mem_cons.1 member with rfl | member
        · exact BitVec.le_of_lt less
        · exact BitVec.le_trans (BitVec.le_of_lt less) (first other member)
      · rename_i least
        refine List.pairwise_cons.2 ⟨fun other member => ?_, ih sorted'⟩
        rcases mem_insertInto.1 member with rfl | member
        · exact BitVec.not_lt.1 least
        · exact first other member

/-- An entry is inserted in front of entries that are all behind it. -/
theorem insertInto_of_first (first : ∀ other ∈ entries, entry.priority < other.priority) :
    entry.insertInto entries = entry :: entries := by
  cases entries with
  | nil => rfl
  | cons head rest => rw [insertInto, if_pos (first head List.mem_cons_self)]

/-- On a sorted list it does not matter whether a line is taken off before another one is
inserted or after. -/
theorem eraseP_insertInto {line : Nat} (sorted : Ascending entries) (other : entry.line ≠ line) :
    (entry.insertInto entries).eraseP (·.line == line) =
      entry.insertInto (entries.eraseP (·.line == line)) := by
  induction entries with
  | nil => simp [insertInto, other]
  | cons head rest ih =>
      obtain ⟨first, sorted'⟩ := List.pairwise_cons.1 sorted
      by_cases less : entry.priority < head.priority
      · have behind : ∀ other ∈ (head :: rest).eraseP (·.line == line),
            entry.priority < other.priority := by
          intro other member
          rcases List.mem_cons.1 (List.mem_of_mem_eraseP member) with rfl | member
          · exact less
          · exact Nat.lt_of_lt_of_le less (first other member)
        rw [insertInto, if_pos less, insertInto_of_first behind,
          List.eraseP_cons_of_neg (by simpa using other)]
      · rw [insertInto, if_neg less]
        by_cases here : head.line = line
        · rw [List.eraseP_cons_of_pos (by simpa using here),
            List.eraseP_cons_of_pos (by simpa using here)]
        · rw [List.eraseP_cons_of_neg (by simpa using here),
            List.eraseP_cons_of_neg (by simpa using here), ih sorted', insertInto, if_neg less]

/-- Taking a line off that has just been inserted leaves the list as it was. -/
theorem eraseP_insertInto_self (fresh : ∀ other ∈ entries, other.line ≠ entry.line) :
    (entry.insertInto entries).eraseP (·.line == entry.line) = entries := by
  induction entries with
  | nil => simp [insertInto]
  | cons head rest ih =>
      have here : head.line ≠ entry.line := fresh head List.mem_cons_self
      simp only [insertInto]
      split
      · simp
      · rw [List.eraseP_cons_of_neg (by simpa using here),
          ih fun other member => fresh other (List.mem_cons_of_mem head member)]

end Entry

namespace Inflight

variable {list : Inflight} {line other : Nat}

theorem erase_insert (sorted : Entry.Ascending list.entries) (priority : Byte)
    (ne : line ≠ other) :
    (list.erase other).insert line priority = (list.insert line priority).erase other := by
  have moved := @Entry.eraseP_insertInto ⟨line, priority⟩ list.entries other sorted ne
  simp only [erase, insert, moved]

theorem erase_insert_self (fresh : list.contains line = false) (priority : Byte) :
    (list.insert line priority).erase line = list := by
  have gone := @Entry.eraseP_insertInto_self ⟨line, priority⟩ list.entries
    (by simpa [contains] using fresh)
  simp only [erase, insert] at gone ⊢
  rw [gone]

theorem erase_comm (ne : line ≠ other) :
    (list.erase line).erase other = (list.erase other).erase line := by
  simp only [erase]
  rw [List.eraseP_comm]
  intro entry _
  by_cases here : entry.line = line
  · exact .inr (by simpa using here ▸ ne)
  · exact .inl (by simpa using here)

theorem erase_erase (distinct : list.lines.Nodup) :
    (list.erase line).erase line = list.erase line := by
  apply erase_of_not_contains
  rw [Bool.eq_false_iff]
  intro listed
  obtain ⟨entry, member, same⟩ := List.mem_map.1 ((contains_iff_mem_lines _ _).1 listed)
  exact ((mem_erase distinct).1 member).2 same

end Inflight

/-! ## Sorted lists -/

/-- Every list stands in ascending priority. -/
def Distributor.Sorted (d : Distributor) : Prop :=
  ∀ v list, d.inflight? v = some list → Entry.Ascending list.entries

theorem Distributor.Sorted.apply {d : Distributor} {a : Act} (before : d.Sorted)
    (allowed : a.Allowed d) : (a.apply d).Sorted := by
  intro v list' found
  by_cases links : a.Links
  · cases a with
    | link w ref priority =>
        rw [Act.apply, inflight?_updateLine_updateInflight] at found
        split at found
        · obtain ⟨list, held, rfl⟩ := Option.map_eq_some_iff.1 found
          exact Entry.ascending_insertInto (before v list held)
        · exact before v list' found
    | _ => exact links.elim
  · obtain ⟨entries, shorter, rfl | ⟨list, held, rfl⟩⟩ :=
      Act.sublist_of_not_links links allowed found
    · exact List.Pairwise.nil.sublist shorter
    · exact (before v list held).sublist shorter

/-! ## The line taken away -/

/-- The line as if it had never been queued, with the snapshot `q`. -/
def Descriptor.atRest (q : Byte) (p : Descriptor) : Descriptor :=
  { p with owner := none, status := p.status.settled, priority := q }

namespace Distributor

variable {v : Nat} {ref other : LineRef} {q : Byte}

/-- The distributor without the delivery of `ref` on `v`. Its snapshot, which outlives the
delivery, is set to `q`. -/
def without (d : Distributor) (v : Nat) (ref : LineRef) (q : Byte) : Distributor :=
  (d.updateLine ref (Descriptor.atRest q)).updateInflight v (·.erase ref.number)

theorem descriptor?_without (d : Distributor) :
    (d.without v ref q).descriptor? other =
      if ref = other then (d.descriptor? other).map (·.atRest q) else d.descriptor? other :=
  descriptor?_updateLine_updateInflight ..

theorem inflight?_without (d : Distributor) (w : Nat) :
    (d.without v ref q).inflight? w =
      if v = w then (d.inflight? w).map (·.erase ref.number) else d.inflight? w :=
  inflight?_updateLine_updateInflight ..

@[simp] theorem registers_without (d : Distributor) :
    (d.without v ref q).registers = d.registers := by
  simp [without]

theorem rank?_without (d : Distributor) (w index : Nat) :
    (d.without v ref q).rank? w index = d.rank? w index := by
  rw [without, rank?_updateInflight, rank?_updateLine]

theorem shape_without (d : Distributor) : (d.without v ref q).shape = d.shape := by
  simp [without]

theorem enabled_without (d : Distributor) : (d.without v ref q).enabled = d.enabled :=
  enabled_updateLine d ref _

theorem vcpu?_isSome_without (d : Distributor) (w : Nat) :
    ((d.without v ref q).vcpu? w).isSome = (d.vcpu? w).isSome := by
  rw [← inflight?_isSome, inflight?_without, ← inflight?_isSome]
  split
  · rw [Option.isSome_map]
  · rfl

theorem descriptor?_isSome_without (d : Distributor) :
    ((d.without v ref q).descriptor? other).isSome = (d.descriptor? other).isSome := by
  rw [descriptor?_without]
  split
  · rw [Option.isSome_map]
  · rfl

theorem lineRef?_without (d : Distributor) (w line : Nat) :
    (d.without v ref q).lineRef? w line = d.lineRef? w line := by
  apply Option.ext
  intro target
  rw [lineRef?_eq_some_iff, lineRef?_eq_some_iff, descriptor?_isSome_without]

theorem resolve_without (d : Distributor) (w line : Nat) :
    (d.without v ref q).resolve w line = d.resolve w line := by
  have present : ((d.without v ref q).vcpu? w).isSome = (d.vcpu? w).isSome :=
    vcpu?_isSome_without d w
  unfold resolve
  rw [lineRef?_without]
  cases here : d.vcpu? w with
  | none =>
      rw [here, Option.isSome_none, Option.isSome_eq_false_iff,
        Option.isNone_iff_eq_none] at present
      rw [present]
  | some vcpu =>
      rw [here] at present
      obtain ⟨vcpu', there⟩ := Option.isSome_iff_exists.1 present
      rw [there]

theorem descriptor_without_ne (d : Distributor) (ne : other ≠ ref) :
    (d.without v ref q).descriptor other = d.descriptor other := by
  rw [descriptor, descriptor?_without, if_neg (Ne.symm ne), descriptor]

theorem priorityOf_without (d : Distributor) (w line : Nat) :
    (d.without v ref q).priorityOf w line = d.priorityOf w line :=
  priorityOf_of_rank (fun index => by rw [rank?_without]) line

/-! ## Changes elsewhere -/

theorem updateRank_without (d : Distributor) (w index : Nat) (f : Rank → Rank) :
    (d.without v ref q).updateRank w index f = (d.updateRank w index f).without v ref q := by
  apply ext_of_readings
  · simp [without]
  · cases ref <;> cases index <;> rfl
  · intro u other
    simp only [rank?_updateRank, rank?_without]
  · intro target
    simp only [descriptor?_updateRank, descriptor?_without]
  · intro u
    simp only [inflight?_updateRank, inflight?_without]

theorem updateLine_without (d : Distributor) (ne : other ≠ ref) (f : Descriptor → Descriptor) :
    (d.without v ref q).updateLine other f = (d.updateLine other f).without v ref q := by
  apply ext_of_delivery
  · simp
  · intro target
    simp only [descriptor?_updateLine, descriptor?_without]
    by_cases here : other = target
    · rw [if_pos here, if_pos here, if_neg (here ▸ ne.symm), if_neg (here ▸ ne.symm)]
    · rw [if_neg here, if_neg here]
  · intro u
    simp only [inflight?_updateLine, inflight?_without]

theorem updateInflight_without {d : Distributor} {w : Nat} {f : Inflight → Inflight}
    (commutes : ∀ list, d.inflight? v = some list → w = v →
      f (list.erase ref.number) = (f list).erase ref.number) :
    (d.without v ref q).updateInflight w f = (d.updateInflight w f).without v ref q := by
  apply ext_of_delivery
  · simp
  · intro target
    simp only [descriptor?_updateInflight, descriptor?_without]
  · intro u
    simp only [inflight?_updateInflight, inflight?_without]
    by_cases here : w = u
    · rw [if_pos here, if_pos here]
      split
      · rename_i same
        subst same
        cases held : d.inflight? v with
        | none => rfl
        | some list => exact congrArg some (commutes list held here)
      · rfl
    · rw [if_neg here, if_neg here]

theorem updateVcpu_setVcpu (d : Distributor) {w : Nat} (ne : w ≠ v) (f : Vcpu → Vcpu)
    (state : Option Vcpu) :
    (d.updateVcpu v f).setVcpu w state = (d.setVcpu w state).updateVcpu v f := by
  simp only [updateVcpu, setVcpu, mk.injEq, true_and]
  apply Array.ext_getElem?
  intro i
  simp only [Array.getElem?_setIfInBounds, Array.getElem?_modify, Array.size_modify]
  by_cases here : w = i
  · have other : ¬ v = i := fun same => ne (here.trans same.symm)
    simp [here, other]
  · simp [here]

theorem setVcpu_without (d : Distributor) (seen : ref.SeenBy v) {w : Nat} (ne : w ≠ v)
    (state : Option Vcpu) :
    (d.without v ref q).setVcpu w state = (d.setVcpu w state).without v ref q := by
  unfold without updateInflight
  rw [updateVcpu_setVcpu _ ne]
  cases ref with
  | banked u line =>
      obtain rfl : u = v := seen
      simp only [updateLine]
      rw [updateVcpu_setVcpu _ ne]
  | shared index => rfl

end Distributor

/-! ## What is not about the line -/

/-- Acts that are neither about the line `ref` nor take all of the list of `v`. -/
def Act.Avoids (v : Nat) (ref : LineRef) : Act → Prop
  | touch other _ | enable other | retrigger _ other | link _ other _ | keep _ other
  | unlink _ other => other ≠ ref
  | clear w | release w => w ≠ v
  | _ => True

/-- The line `ref` has the descriptor `p` and is on the list of `v` or on none, in a state
where lists and owners agree and lists are sorted. -/
structure Apart (v : Nat) (ref : LineRef) (p : Descriptor) (d : Distributor) : Prop where
  consistent : Consistent d
  sorted : d.Sorted
  present : (d.vcpu? v).isSome = true
  seen : ref.SeenBy v
  found : d.descriptor? ref = some p
  holder : p.owner = none ∨ p.owner = some v

namespace Apart

variable {v : Nat} {ref : LineRef} {p : Descriptor} {d : Distributor} {q : Byte} {a : Act}

/-- Two lines on the list of `v` have two numbers. -/
theorem number_ne (apart : Apart v ref p d) {other : LineRef} (seen : other.SeenBy v)
    (ne : other ≠ ref) : other.number ≠ ref.number :=
  fun same => ne (LineRef.eq_of_seenBy seen apart.seen same)

theorem ne_of_absent (apart : Apart v ref p d) {w : Nat} (absent : d.vcpu? w = none) : w ≠ v := by
  rintro rfl
  have present := apart.present
  rw [absent] at present
  cases present

/-- No other list has the line. -/
theorem not_mem_lines (apart : Apart v ref p d) {w : Nat} (ne : w ≠ v) {list : Inflight}
    (held : d.inflight? w = some list) (seen : ref.SeenBy w) : ref.number ∉ list.lines := by
  intro member
  have owner := apart.consistent.owner_of_mem_lines held member seen apart.found
  rcases apart.holder with free | mine
  · rw [free] at owner
    cases owner
  · exact ne (Option.some.inj (owner.symm.trans mine))

theorem contains_of_free (apart : Apart v ref p d) (free : p.owner = none) {list : Inflight}
    (held : d.inflight? v = some list) : list.contains ref.number = false := by
  rw [Bool.eq_false_iff]
  intro listed
  have owner := apart.consistent.owner_of_mem_lines held
    ((Inflight.contains_iff_mem_lines _ _).1 listed) apart.seen apart.found
  rw [free] at owner
  cases owner

theorem dropInflight_without (apart : Apart v ref p d) {w : Nat} (ne : w ≠ v) :
    (d.without v ref q).dropInflight w = (d.dropInflight w).without v ref q := by
  have same : (d.without v ref q).inflight? w = d.inflight? w := by
    rw [Distributor.inflight?_without, if_neg ne.symm]
  cases held : d.inflight? w with
  | none =>
      rw [Distributor.dropInflight_of_none held,
        Distributor.dropInflight_of_none (same.trans held)]
  | some list =>
      have outside := fun seen => apart.not_mem_lines ne held seen
      apply Distributor.ext_of_delivery
      · simp
      · intro target
        rw [Distributor.descriptor?_dropInflight (same.trans held), Distributor.descriptor?_without,
          Distributor.descriptor?_without, Distributor.descriptor?_dropInflight held]
        by_cases here : ref = target
        · subst here
          simp only [if_true, if_neg fun both : ref.SeenBy w ∧ ref.number ∈ list.lines =>
            outside both.1 both.2]
        · rw [if_neg here, if_neg here]
      · intro u
        simp only [Distributor.inflight?_dropInflight, Distributor.inflight?_without]
        by_cases here : w = u
        · subst here
          simp [ne.symm]
        · simp [here]

/-- An act elsewhere does the same to what is left without the line. -/
theorem apply_without (apart : Apart v ref p d) (avoids : a.Avoids v ref)
    (allowed : a.Allowed d) :
    a.apply (d.without v ref q) = (a.apply d).without v ref q := by
  cases a with
  | ask | note | call => rfl
  | control enabled => cases ref <;> rfl
  | store w index f => exact d.updateRank_without w index f
  | touch other report => exact d.updateLine_without avoids _
  | enable other | retrigger _ other | keep _ other => exact d.updateLine_without avoids _
  | link w other priority =>
      obtain ⟨there, seen, -, -, -⟩ := allowed
      obtain ⟨p', found⟩ := Option.isSome_iff_exists.1 there
      rw [Act.apply, Act.apply, Distributor.descriptor_without_ne d avoids,
        Distributor.updateLine_without d avoids, Distributor.updateInflight_without]
      rintro list held rfl
      rw [Distributor.inflight?_updateLine] at held
      rw [Distributor.descriptor_of_eq_some found, apart.consistent.numbered found]
      exact Inflight.erase_insert (apart.sorted w list held) priority
        (apart.number_ne seen avoids)
  | unlink holder other =>
      rw [Act.apply, Act.apply, Distributor.updateLine_without d avoids,
        Distributor.updateInflight_without]
      rintro list - rfl
      have there := Distributor.descriptor?_of_owner allowed
      exact Inflight.erase_comm
        (apart.number_ne (apart.consistent.owned there allowed).1 avoids).symm
  | clear w => exact apart.dropInflight_without avoids
  | allocate w vcpu =>
      exact Distributor.setVcpu_without d apart.seen (apart.ne_of_absent allowed.1) _
  | release w => exact Distributor.setVcpu_without d apart.seen avoids _

theorem descriptor?_apply (apart : Apart v ref p d) (avoids : a.Avoids v ref)
    (allowed : a.Allowed d) : (a.apply d).descriptor? ref = d.descriptor? ref := by
  have elsewhere : ∀ {w : Nat}, w ≠ v → ∀ state,
      (d.setVcpu w state).descriptor? ref = d.descriptor? ref := by
    intro w ne state
    have seen := apart.seen
    cases ref with
    | banked u line =>
        obtain rfl : u = v := seen
        rw [Distributor.descriptor?_setVcpu_banked, if_neg fun both => ne both.1]
    | shared index => rfl
  cases a with
  | touch other | enable other | retrigger _ other | link _ other _ | keep _ other
  | unlink _ other =>
      rw [Act.descriptor?_apply_of_change? rfl, if_neg avoids]
  | clear w =>
      rw [Act.apply]
      cases held : d.inflight? w with
      | none => rw [Distributor.dropInflight_of_none held]
      | some list =>
          rw [Distributor.descriptor?_dropInflight held, if_neg fun both =>
            apart.not_mem_lines avoids held both.1 both.2]
  | allocate w vcpu => exact elsewhere (apart.ne_of_absent allowed.1) _
  | release w => exact elsewhere avoids _
  | _ => exact Act.Registers.descriptor?_apply (by trivial) ref

/-- The line stays apart from what is not about it. -/
theorem apply (apart : Apart v ref p d) (avoids : a.Avoids v ref) (allowed : a.Allowed d) :
    Apart v ref p (a.apply d) where
  consistent := apart.consistent.apply allowed
  sorted := apart.sorted.apply allowed
  present := by
    rw [← Distributor.inflight?_isSome]
    have present := apart.present
    rw [← Distributor.inflight?_isSome] at present
    cases a with
    | allocate w vcpu =>
        rw [Act.apply, Distributor.inflight?_setVcpu]
        split
        · rfl
        · exact present
    | release w =>
        rw [Act.apply, Distributor.inflight?_setVcpu, if_neg fun both => avoids both.1]
        exact present
    | _ =>
        rw [Act.inflight?_isSome_apply v (by trivial)]
        exact present
  seen := apart.seen
  found := (apart.descriptor?_apply avoids allowed).trans apart.found
  holder := apart.holder

/-! ## The delivery of the line -/

/-- A change of the line that delivery alone is about does not show without it. -/
theorem without_updateLine_self {f : Descriptor → Descriptor}
    (same : ∀ p : Descriptor, (f p).atRest q = p.atRest q) :
    (d.updateLine ref f).without v ref q = d.without v ref q := by
  apply Distributor.ext_of_delivery
  · simp
  · intro target
    simp only [Distributor.descriptor?_without, Distributor.descriptor?_updateLine]
    split
    · rw [Option.map_map]
      exact congrArg (fun g => Option.map g _) (funext same)
    · rfl
  · intro u
    simp only [Distributor.inflight?_without, Distributor.inflight?_updateLine]

theorem without_updateInflight_self {g : Inflight → Inflight}
    (same : ∀ list, d.inflight? v = some list →
      (g list).erase ref.number = list.erase ref.number) :
    (d.updateInflight v g).without v ref q = d.without v ref q := by
  apply Distributor.ext_of_delivery
  · simp
  · intro target
    simp only [Distributor.descriptor?_without, Distributor.descriptor?_updateInflight]
  · intro u
    simp only [Distributor.inflight?_without, Distributor.inflight?_updateInflight]
    by_cases here : v = u
    · subst here
      cases held : d.inflight? v with
      | none => simp
      | some list => simp [same list held]
    · simp [here]

/-- Claiming the line for `v` does not show without it. -/
theorem link_without (apart : Apart v ref p d) (free : p.owner = none) (priority : Byte) :
    ((Act.link v ref priority).apply d).without v ref q = d.without v ref q := by
  rw [Act.apply, without_updateInflight_self]
  · exact without_updateLine_self fun _ => rfl
  · intro list held
    rw [Distributor.inflight?_updateLine] at held
    have fresh := apart.contains_of_free free held
    rw [Distributor.descriptor_of_eq_some apart.found, apart.consistent.numbered apart.found,
      Inflight.erase_insert_self fresh, Inflight.erase_of_not_contains fresh]

/-- Neither does taking it off the list of `v`. -/
theorem unlink_without (apart : Apart v ref p d) :
    ((Act.unlink v ref).apply d).without v ref q = d.without v ref q := by
  have settles : ∀ p : Descriptor, (p.handBack v).atRest q = p.atRest q := by
    intro p
    unfold Descriptor.handBack Descriptor.settle Descriptor.release
    split <;> rfl
  rw [Act.apply, without_updateInflight_self]
  · exact without_updateLine_self settles
  · intro list held
    rw [Distributor.inflight?_updateLine] at held
    exact Inflight.erase_erase (apart.consistent.distinct held)

/-- Of a line that is idle, only the snapshot is missing. -/
theorem without_idle (apart : Apart v ref p d) (free : p.owner = none)
    (settled : p.status.settled = p.status) :
    d.without v ref q = d.updateLine ref ({ · with priority := q }) := by
  apply Distributor.ext_of_delivery
  · simp
  · intro target
    simp only [Distributor.descriptor?_without, Distributor.descriptor?_updateLine]
    split
    · rename_i here
      subst here
      rw [apart.found, Option.map_some, Option.map_some, Descriptor.atRest, settled, ← free]
    · rfl
  · intro u
    rw [Distributor.inflight?_without, Distributor.inflight?_updateLine]
    split
    · rename_i here
      subst here
      cases held : d.inflight? v with
      | none => rfl
      | some list =>
          rw [Option.map_some, Inflight.erase_of_not_contains (apart.contains_of_free free held)]
    · rfl

end Apart

end VirtualGic
