/-
# Proofs.Agreement — lists and owners say the same

Who holds a line is written down twice: in its descriptor (`owner`) and in the inflight
list of that VCPU. `Agreement` says what the two have to do with each other, and
`run_agreement` that no history brings them apart.

The invariant behind it is `Consistent`. It is more than the agreement: it keeps the
priority that the entry and the descriptor share, and it says which reference an entry
stands for. Acts that move no line between lists leave what it speaks of alone
(`Consistent.congr`). The others are of three sorts: a line is claimed (`link`), lines
are handed back (`handBack`), and VCPUs come and go with nothing on their lists
(`setVcpu`).
-/
import VirtualGic.Proofs.History

namespace VirtualGic

set_option autoImplicit false

/-- The part of a descriptor that says where the line is queued. -/
def Descriptor.holding (p : Descriptor) : Nat × Option Nat × Byte :=
  (p.line, p.owner, p.priority)

/-- Lists and owners are about the same lines. -/
structure Consistent (d : Distributor) : Prop where
  /-- A descriptor has the number it is found under. -/
  numbered : ∀ {ref p}, d.descriptor? ref = some p → p.line = ref.number
  /-- A line that is owned is on the list of its owner, who sees it. -/
  owned : ∀ {ref p v}, d.descriptor? ref = some p → p.owner = some v →
    ref.SeenBy v ∧ d.Lists v ⟨ref.number, p.priority⟩
  /-- An entry stands for a line that is owned by the VCPU of the list. -/
  listed : ∀ {v entry}, d.Lists v entry →
    ∃ ref p, ref.number = entry.line ∧ ref.SeenBy v ∧ d.descriptor? ref = some p ∧
      p.owner = some v ∧ p.priority = entry.priority
  /-- No list has a line twice. -/
  distinct : ∀ {v list}, d.inflight? v = some list → list.lines.Nodup

namespace Consistent

variable {d : Distributor}

/-- The entry of a line that `v` sees is on its list only if `v` owns the line. -/
theorem owner_of_lists (before : Consistent d) {v : Nat} {ref : LineRef} {entry : Entry}
    {p : Descriptor} (lists : d.Lists v entry) (number : ref.number = entry.line)
    (seen : ref.SeenBy v) (found : d.descriptor? ref = some p) :
    p.owner = some v ∧ p.priority = entry.priority := by
  obtain ⟨ref', p', number', seen', found', owner, priority⟩ := before.listed lists
  obtain rfl := LineRef.eq_of_seenBy seen' seen (number'.trans number.symm)
  obtain rfl := Option.some.inj (found'.symm.trans found)
  exact ⟨owner, priority⟩

theorem owner_of_mem_lines (before : Consistent d) {v : Nat} {ref : LineRef} {list : Inflight}
    {p : Descriptor} (found : d.inflight? v = some list) (member : ref.number ∈ list.lines)
    (seen : ref.SeenBy v) (there : d.descriptor? ref = some p) : p.owner = some v := by
  obtain ⟨entry, member, number⟩ := List.mem_map.1 member
  exact (before.owner_of_lists ⟨list, found, member⟩ number.symm seen there).1

theorem onList_of_owner (before : Consistent d) {v : Nat} {ref : LineRef} {p : Descriptor}
    (found : d.descriptor? ref = some p) (owner : p.owner = some v) :
    d.onList v ref.number = true :=
  Distributor.onList_iff.2 ⟨_, (before.owned found owner).2, rfl⟩

theorem owner_of_onList (before : Consistent d) {v : Nat} {ref : LineRef}
    (listed : d.onList v ref.number = true) (seen : ref.SeenBy v) :
    d.descriptor? ref = some (d.descriptor ref) ∧ (d.descriptor ref).owner = some v := by
  obtain ⟨entry, lists, number⟩ := Distributor.onList_iff.1 listed
  obtain ⟨other, p, number', seen', found, owner, -⟩ := before.listed lists
  obtain rfl := LineRef.eq_of_seenBy seen' seen (number'.trans number)
  rw [Distributor.descriptor_of_eq_some found]
  exact ⟨found, owner⟩

/-- A line that `v` sees is on its list exactly if `v` owns the line. -/
theorem onList_iff_owner (before : Consistent d) {v : Nat} {ref : LineRef} (seen : ref.SeenBy v) :
    d.onList v ref.number = true ↔ (d.descriptor ref).owner = some v :=
  ⟨fun listed => (before.owner_of_onList listed seen).2,
    fun owner => before.onList_of_owner (Distributor.descriptor?_of_owner owner) owner⟩

/-- A list has one entry of a line at most. -/
theorem entry_unique (before : Consistent d) {v : Nat} {entry other : Entry}
    (lists : d.Lists v entry) (lists' : d.Lists v other) (same : entry.line = other.line) :
    entry = other := by
  obtain ⟨ref, p, number, seen, found, -, priority⟩ := before.listed lists
  have priority' := (before.owner_of_lists lists' (number.trans same) seen found).2
  obtain ⟨line, high⟩ := entry
  obtain ⟨line', high'⟩ := other
  obtain rfl : line = line' := same
  have priorities : high = high' := priority.symm.trans priority'
  rw [priorities]

/-- Only what descriptors say of where their lines are queued matters. -/
theorem congr {d' : Distributor} (before : Consistent d)
    (lists : ∀ v, d'.inflight? v = d.inflight? v)
    (descriptors : ∀ ref, (d'.descriptor? ref).map Descriptor.holding =
      (d.descriptor? ref).map Descriptor.holding) : Consistent d' := by
  have back : ∀ {ref p'}, d'.descriptor? ref = some p' →
      ∃ p, d.descriptor? ref = some p ∧ p.holding = p'.holding := by
    intro ref p' found
    have same := descriptors ref
    rw [found] at same
    exact Option.map_eq_some_iff.1 same.symm
  have forth : ∀ {ref p}, d.descriptor? ref = some p →
      ∃ p', d'.descriptor? ref = some p' ∧ p'.holding = p.holding := by
    intro ref p found
    have same := descriptors ref
    rw [found] at same
    exact Option.map_eq_some_iff.1 same
  refine ⟨?_, ?_, ?_, ?_⟩
  · intro ref p' found
    obtain ⟨p, found, same⟩ := back found
    simp only [Descriptor.holding, Prod.mk.injEq] at same
    exact same.1 ▸ before.numbered found
  · intro ref p' v found owner
    obtain ⟨p, found, same⟩ := back found
    simp only [Descriptor.holding, Prod.mk.injEq] at same
    rw [← same.2.2, Distributor.lists_of_inflight? (lists v)]
    exact before.owned found (same.2.1.trans owner)
  · intro v entry listed
    obtain ⟨ref, p, number, seen, found, owner, priority⟩ :=
      before.listed ((Distributor.lists_of_inflight? (lists v)).1 listed)
    obtain ⟨p', found, same⟩ := forth found
    simp only [Descriptor.holding, Prod.mk.injEq] at same
    exact ⟨ref, p', number, seen, found, same.2.1.trans owner, same.2.2.trans priority⟩
  · intro v list found
    exact before.distinct ((lists v).symm.trans found)

theorem updateLine (before : Consistent d) (ref : LineRef) {f : Descriptor → Descriptor}
    (keeps : ∀ p, (f p).holding = p.holding) : Consistent (d.updateLine ref f) := by
  refine before.congr (fun v => Distributor.inflight?_updateLine d ref f v) ?_
  intro other
  rw [Distributor.descriptor?_updateLine]
  split
  · rw [Option.map_map]
    exact congrArg (fun g => Option.map g _) (funext keeps)
  · rfl

/-! ## Acts that move lines between lists -/

section Moves

variable {v : Nat} {ref : LineRef}

theorem link (before : Consistent d) (priority : Byte)
    (there : (d.descriptor? ref).isSome = true) (seen : ref.SeenBy v)
    (present : (d.vcpu? v).isSome = true) (free : (d.descriptor ref).owner = none) :
    Consistent ((Act.link v ref priority).apply d) := by
  obtain ⟨p, found⟩ := Option.isSome_iff_exists.1 there
  have entries := @Act.lists_link_iff d v ref priority present
  have descriptors := Act.descriptor?_apply_of_change? (a := .link v ref priority) (d := d) rfl
  rw [Distributor.descriptor_of_eq_some found] at free entries
  rw [before.numbered found] at entries
  refine ⟨?_, ?_, ?_, ?_⟩
  · intro other q found'
    rw [descriptors] at found'
    split at found'
    · obtain ⟨q, known, rfl⟩ := Option.map_eq_some_iff.1 found'
      exact (show q.line = other.number from before.numbered known)
    · exact before.numbered found'
  · intro other q w found' owner
    rw [descriptors] at found'
    split at found'
    · rename_i same
      subst same
      obtain ⟨q, known, rfl⟩ := Option.map_eq_some_iff.1 found'
      obtain rfl : v = w := Option.some.inj owner
      exact ⟨seen, entries.2 (.inl ⟨rfl, rfl⟩)⟩
    · exact (before.owned found' owner).imp id fun lists => entries.2 (.inr lists)
  · intro w entry listed
    rcases entries.1 listed with ⟨rfl, rfl⟩ | listed
    · exact ⟨ref, p.claim v priority, rfl, seen, by rw [descriptors, if_pos rfl, found]; rfl,
        rfl, rfl⟩
    · obtain ⟨other, q, number, seen', found', owner, same⟩ := before.listed listed
      refine ⟨other, q, number, seen', ?_, owner, same⟩
      rw [descriptors, if_neg, found']
      rintro rfl
      obtain rfl := Option.some.inj (found.symm.trans found')
      rw [free] at owner
      cases owner
  · intro w list found'
    rw [Act.apply, Distributor.inflight?_updateLine_updateInflight] at found'
    split at found'
    · rename_i same
      subst same
      obtain ⟨old, held, rfl⟩ := Option.map_eq_some_iff.1 found'
      rw [Distributor.descriptor_of_eq_some found, before.numbered found]
      refine Inflight.nodup_insert priority (before.distinct held) fun member => ?_
      rw [before.owner_of_mem_lines held member seen found] at free
      cases free
    · exact before.distinct found'

/-- Lines leave the list of `v`, and are handed back. Unlinking one line and clearing the
whole list differ only in the numbers that are gone. -/
theorem handBack {d' : Distributor} (before : Consistent d) (gone : Nat → Prop)
    [DecidablePred gone]
    (held : ∀ {ref p}, d.descriptor? ref = some p → ref.SeenBy v → gone ref.number →
      p.owner = some v)
    (descriptors : ∀ ref, d'.descriptor? ref =
      if ref.SeenBy v ∧ gone ref.number then (d.descriptor? ref).map (Descriptor.handBack v)
      else d.descriptor? ref)
    (entries : ∀ {w entry}, d'.Lists w entry ↔ d.Lists w entry ∧ ¬ (v = w ∧ gone entry.line))
    (distinct : ∀ {w list}, d'.inflight? w = some list → list.lines.Nodup) : Consistent d' := by
  refine ⟨?_, ?_, ?_, distinct⟩
  · intro ref p' found
    rw [descriptors] at found
    split at found
    · obtain ⟨p, known, rfl⟩ := Option.map_eq_some_iff.1 found
      exact (Descriptor.handBack_line v p).trans (before.numbered known)
    · exact before.numbered found
  · intro ref p' w found owner
    rw [descriptors] at found
    split at found
    · rename_i leaves
      obtain ⟨p, known, rfl⟩ := Option.map_eq_some_iff.1 found
      rw [Descriptor.handBack_owner, if_pos (held known leaves.1 leaves.2)] at owner
      cases owner
    · rename_i stays
      obtain ⟨seen, listed⟩ := before.owned found owner
      refine ⟨seen, entries.2 ⟨listed, ?_⟩⟩
      rintro ⟨rfl, leaves⟩
      exact stays ⟨seen, leaves⟩
  · intro w entry listed
    obtain ⟨listed, stays⟩ := entries.1 listed
    obtain ⟨ref, p, number, seen, found, owner, priority⟩ := before.listed listed
    refine ⟨ref, p, number, seen, ?_, owner, priority⟩
    rw [descriptors, if_neg, found]
    rintro ⟨seen', leaves⟩
    have owner' := held found seen' leaves
    exact stays ⟨Option.some.inj (owner'.symm.trans owner), number ▸ leaves⟩

theorem unlink (before : Consistent d) (owner : (d.descriptor ref).owner = some v) :
    Consistent ((Act.unlink v ref).apply d) := by
  have found := Distributor.descriptor?_of_owner owner
  have seen := (before.owned found owner).1
  have lists := Distributor.inflight?_updateLine_updateInflight d ref (Descriptor.handBack v) v
    (·.erase ref.number)
  refine before.handBack (v := v) (· = ref.number) ?_ ?_ ?_ ?_
  · intro other p known seen' same
    obtain rfl := LineRef.eq_of_seenBy seen' seen same
    obtain rfl := Option.some.inj (known.symm.trans found)
    exact owner
  · intro other
    rw [Act.apply, Distributor.descriptor?_updateLine_updateInflight]
    by_cases same : ref = other
    · rw [if_pos same, if_pos (same ▸ ⟨seen, rfl⟩)]
    · rw [if_neg same, if_neg fun held => same (LineRef.eq_of_seenBy seen held.1 held.2.symm)]
  · intro w entry
    unfold Distributor.Lists
    rw [Act.apply, lists]
    by_cases same : v = w
    · subst same
      cases held : d.inflight? v with
      | none => simp
      | some list => simp [Inflight.mem_erase (before.distinct held)]
    · simp [same]
  · intro w list known
    rw [Act.apply, lists] at known
    split at known
    · obtain ⟨old, held, rfl⟩ := Option.map_eq_some_iff.1 known
      exact Inflight.nodup_erase ref.number (before.distinct held)
    · exact before.distinct known

theorem clear (before : Consistent d) (v : Nat) : Consistent ((Act.clear v).apply d) := by
  rw [Act.apply]
  cases held : d.inflight? v with
  | none =>
      rw [Distributor.dropInflight_of_none held]
      exact before
  | some list =>
      have lists := Distributor.inflight?_dropInflight d v
      refine before.handBack (v := v) (· ∈ list.lines) ?_
        (Distributor.descriptor?_dropInflight held) ?_ ?_
      · intro ref p known seen member
        exact before.owner_of_mem_lines held member seen known
      · intro w entry
        unfold Distributor.Lists
        rw [lists]
        by_cases same : v = w
        · subst same
          simp only [held, if_true, Option.map_some, Inflight.drain, Option.some.injEq,
            exists_eq_left', List.not_mem_nil, true_and, false_iff, not_and, Decidable.not_not]
          exact fun member => List.mem_map_of_mem member
        · simp [same]
      · intro w other known
        rw [lists] at known
        split at known
        · obtain ⟨old, -, rfl⟩ := Option.map_eq_some_iff.1 known
          exact List.nodup_nil
        · exact before.distinct known

/-- The two ways in which a VCPU comes and goes: nothing is on its list then. -/
theorem setVcpu (before : Consistent d) {state : Option Vcpu}
    (empty : ∀ entry, ¬ d.Lists v entry)
    (idle : ∀ vcpu, state = some vcpu → vcpu.inflight.entries = [] ∧
      ∀ line : Fin 32, vcpu.lines.get line = Descriptor.idle line) :
    Consistent (d.setVcpu v state) := by
  have entries : ∀ {w entry}, (d.setVcpu v state).Lists w entry ↔ d.Lists w entry := by
    intro w entry
    unfold Distributor.Lists
    rw [Distributor.inflight?_setVcpu]
    split
    · rename_i same
      obtain ⟨rfl, -⟩ := same
      constructor
      · rintro ⟨list, found, member⟩
        obtain ⟨vcpu, made, rfl⟩ := Option.map_eq_some_iff.1 found
        rw [(idle vcpu made).1] at member
        cases member
      · exact fun listed => absurd listed (empty entry)
    · rfl
  have unowned : ∀ {ref p}, (d.setVcpu v state).descriptor? ref = some p →
      (p = Descriptor.idle ref.number) ∨ d.descriptor? ref = some p := by
    intro ref p found
    cases ref with
    | shared index => exact .inr found
    | banked w line =>
        rw [Distributor.descriptor?_setVcpu_banked] at found
        split at found
        · obtain ⟨vcpu, made, rfl⟩ := Option.map_eq_some_iff.1 found
          exact .inl ((idle vcpu made).2 line)
        · exact .inr found
  refine ⟨?_, ?_, ?_, ?_⟩
  · intro ref p found
    rcases unowned found with rfl | found
    · rfl
    · exact before.numbered found
  · intro ref p w found owner
    rcases unowned found with rfl | found
    · cases owner
    · exact (before.owned found owner).imp id entries.2
  · intro w entry listed
    obtain ⟨ref, p, number, seen, found, owner, priority⟩ := before.listed (entries.1 listed)
    refine ⟨ref, p, number, seen, ?_, owner, priority⟩
    cases ref with
    | shared index => exact found
    | banked u line =>
        rw [Distributor.descriptor?_setVcpu_banked, if_neg, found]
        rintro ⟨rfl, -⟩
        obtain rfl : v = w := seen
        exact empty entry (entries.1 listed)
  · intro w list found
    rw [Distributor.inflight?_setVcpu] at found
    split at found
    · obtain ⟨vcpu, made, rfl⟩ := Option.map_eq_some_iff.1 found
      rw [Inflight.lines, (idle vcpu made).1]
      exact List.nodup_nil
    · exact before.distinct found

end Moves

theorem apply (before : Consistent d) {a : Act} (allowed : a.Allowed d) :
    Consistent (a.apply d) := by
  cases a with
  | ask | note | call => exact before
  | control enabled => exact before.congr (fun _ => rfl) (fun ref => by cases ref <;> rfl)
  | store v index f =>
      exact before.congr (Distributor.inflight?_updateRank d v index f)
        (fun ref => congrArg _ (Distributor.descriptor?_updateRank d v index f ref))
  | touch ref report =>
      exact before.updateLine ref fun p => by simp [Descriptor.holding]
  | enable ref | retrigger _ ref | keep _ ref => exact before.updateLine ref fun p => rfl
  | link v ref priority =>
      obtain ⟨there, seen, present, free, -⟩ := allowed
      exact before.link priority there seen present free
  | unlink holder ref => exact before.unlink allowed
  | clear v => exact before.clear v
  | allocate v vcpu =>
      obtain ⟨absent, -, capacity, -, created⟩ := allowed
      refine before.setVcpu ?_ ?_
      · intro entry listed
        have present := listed.present
        rw [absent] at present
        cases present
      · rintro _ ⟨⟩
        obtain ⟨-, idle, listless⟩ := Vcpu.idle_of_create created
        exact ⟨listless, idle⟩
  | release v =>
      refine before.setVcpu ?_ (by rintro vcpu ⟨⟩)
      rintro entry ⟨list, found, member⟩
      rw [allowed list found] at member
      cases member

theorem create (config : Config) : Consistent (Distributor.create config) := by
  have lists : ∀ v, (Distributor.create config).inflight? v = none := by
    intro v
    simp [Distributor.inflight?, Distributor.vcpu?_create]
  refine ⟨?_, ?_, ?_, ?_⟩
  · rintro ref p found
    rw [Distributor.eq_idle_of_create found]
    rfl
  · rintro ref p v found owner
    rw [Distributor.eq_idle_of_create found] at owner
    cases owner
  · rintro v entry ⟨list, found, -⟩
    rw [lists] at found
    cases found
  · intro v list found
    rw [lists] at found
    cases found

end Consistent

theorem Steps.consistent {σ : Type} {K : Act → Prop} {m m' : Machine σ} (steps : Steps K m m')
    (before : Consistent m.dist) : Consistent m'.dist :=
  steps.kept (P := fun s => Consistent s.dist)
    (fun _ step before => step.dist ▸ before.apply step.allowed) before

/-- What is true when a call is made, and kept by the acts that follow, is true in the end. -/
theorem Steps.holds_of_made {σ : Type} {K : Act → Prop} {m m' : Machine σ}
    (steps : Steps K m m') (consistent : Consistent m.dist) {Q : Distributor → Prop} {c : Call}
    (made : ∀ {a : Act} {d}, a.Allowed d → Consistent d → Event.call c ∈ a.events d →
      Q (a.apply d))
    (keep : ∀ {a : Act} {d}, K a → a.Allowed d → Q d → Q (a.apply d))
    (member : c ∈ m'.calls.drop m.calls.length) : Q m'.dist := by
  refine (steps.keptSince (P := fun s => Consistent s.dist ∧
    (c ∈ s.calls.drop m.calls.length → Q s.dist)) ?_ ⟨consistent, by simp⟩).2 member
  rintro s a s' since kind step ⟨consistent, before⟩
  rw [step.dist]
  refine ⟨consistent.apply step.allowed, fun member => ?_⟩
  rcases (step.mem_calls_iff since.calls_extend.length_le).1 member with member | member
  · exact keep kind step.allowed (before member)
  · exact made step.allowed consistent member

theorem Consistent.perform {σ : Type} [Host σ] {m : Machine σ} (before : Consistent m.dist)
    (operation : Operation) : Consistent (m.perform operation).2.dist :=
  (m.perform_steps operation).consistent before

theorem Consistent.run {σ : Type} [Host σ] {m : Machine σ} (before : Consistent m.dist)
    (operations : List Operation) : Consistent (m.run operations).dist :=
  Machine.run_induction (P := fun m => Consistent m.dist)
    (fun _ operation before => before.perform operation) before operations

namespace Machine

variable {σ : Type} [Host σ]

/-- Lists and owners are about the same lines after every history. -/
theorem consistent_run {config : Config} {host : σ} {m : Machine σ}
    (started : Machine.start config host = .ok m) (operations : List Operation) :
    Consistent (m.run operations).dist := by
  obtain ⟨-, rfl⟩ := start_eq_ok_iff.1 started
  exact (Consistent.create config).run operations

/-- No history finds a line whose owner has no state. -/
theorem owner_never_missing {config : Config} {host : σ} {m : Machine σ}
    (started : Machine.start config host = .ok m) (operations : List Operation) :
    ∀ line v, Event.note (.ownerMissing line v) ∉ (m.run operations).trace := by
  obtain ⟨-, rfl⟩ := start_eq_ok_iff.1 started
  refine (run_kept (P := fun m => Consistent m.dist ∧
    ∀ line v, Event.note (.ownerMissing line v) ∉ m.trace) ?_ ⟨.create config, by simp [fresh]⟩
    operations).2
  rintro m a m' step ⟨before, silent⟩
  refine ⟨step.dist ▸ before.apply step.allowed, ?_⟩
  intro line v member
  rw [step.trace, List.mem_append] at member
  rcases member with member | member
  · exact silent line v member
  · obtain rfl := a.eq_note_of_mem_events member
    obtain ⟨absent, ref, owner⟩ := step.allowed line v rfl
    have present := (before.owned (Distributor.descriptor?_of_owner owner) owner).2.present
    rw [absent] at present
    cases present

end Machine

/-! ## What the lists and the owners say of each other -/

/-- Where a line is queued is the same by the lists and by the descriptors. -/
structure Agreement (d : Distributor) : Prop where
  /-- A VCPU's list has the lines whose descriptors name it, as it sees them. -/
  listed_iff_owned : ∀ {v list}, d.inflight? v = some list → ∀ line,
    line ∈ list.lines ↔ ∃ p, d.line? v line = some p ∧ p.owner = some v
  /-- No list has a line twice. -/
  distinct : ∀ {v list}, d.inflight? v = some list → list.lines.Nodup
  /-- A shared line is on one list at most. -/
  exclusive : ∀ {v w mine other line}, linesPerRank ≤ line →
    d.inflight? v = some mine → d.inflight? w = some other →
    line ∈ mine.lines → line ∈ other.lines → v = w
  /-- A private line is owned by its own VCPU or by nobody. -/
  private_owner : ∀ {v line p owner}, d.descriptor? (.banked v line) = some p →
    p.owner = some owner → owner = v
  /-- An owner has state. -/
  owner_present : ∀ {ref p owner}, d.descriptor? ref = some p → p.owner = some owner →
    (d.vcpu? owner).isSome = true

theorem Consistent.agreement {d : Distributor} (consistent : Consistent d) : Agreement d where
  listed_iff_owned := by
    intro v list found line
    constructor
    · intro member
      obtain ⟨entry, on, rfl⟩ := List.mem_map.1 member
      obtain ⟨ref, p, number, seen, there, owner, -⟩ := consistent.listed ⟨list, found, on⟩
      exact ⟨p, Distributor.line?_eq_some_iff.2 ⟨ref, number, seen, there⟩, owner⟩
    · rintro ⟨p, looked, owner⟩
      obtain ⟨ref, rfl, -, there⟩ := Distributor.line?_eq_some_iff.1 looked
      obtain ⟨-, list', found', member⟩ := consistent.owned there owner
      obtain rfl := Option.some.inj (found.symm.trans found')
      exact List.mem_map_of_mem member
  distinct := consistent.distinct
  exclusive := by
    intro v w mine other line high found found' member member'
    obtain ⟨entry, on, rfl⟩ := List.mem_map.1 member
    obtain ⟨ref, p, number, -, there, owner, -⟩ := consistent.listed ⟨mine, found, on⟩
    have shared : ref.SeenBy w := LineRef.seenBy_shared (number ▸ high) w
    have owner' := consistent.owner_of_mem_lines found' (number ▸ member') shared there
    exact Option.some.inj (owner.symm.trans owner')
  private_owner := by
    intro v line p owner found owned
    exact (show v = owner from (consistent.owned found owned).1).symm
  owner_present := fun found owned => (consistent.owned found owned).2.present

namespace Machine

/-- After every history the lists and the owners agree, and no line was ever found in
the hands of a VCPU without state. -/
theorem run_agreement {σ : Type} [Host σ] {config : Config} {host : σ} {m : Machine σ}
    (started : Machine.start config host = .ok m) (operations : List Operation) :
    Agreement (m.run operations).dist ∧
      ∀ line v, Event.note (.ownerMissing line v) ∉ (m.run operations).trace :=
  ⟨(consistent_run started operations).agreement, owner_never_missing started operations⟩

/-- A shared line is raised on VCPU 1, raised again there by way of VCPU 0, and handed back
when VCPU 1 is released; VCPU 0 then holds it. -/
theorem run_agreement_handed_over :
    let m : Machine SteadyHost := .fresh (.forHardware 2 64) { up := [0, 1] }
    let ended := m.run [.initVcpu 0, .initVcpu 1, .inject 1 40, .inject 0 40, .freeVcpu 1,
      .inject 0 40]
    ended.dist.onList 0 40 = true ∧ Agreement ended.dist := by
  have started : Machine.start (.forHardware 2 64) ({ up := [0, 1] } : SteadyHost) = .ok _ := rfl
  exact ⟨by decide +kernel, (run_agreement started _).1⟩

end Machine

end VirtualGic
