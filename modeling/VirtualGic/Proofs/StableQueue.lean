/-
# Proofs.StableQueue — an inflight list is a stable priority queue with removal

The reference is a list of survivors in the order of their insertion. `Queue.perform` appends
to it what is inserted, deletes from it what is removed, and empties it at a drain; how the
survivors stand on the inflight list is not its business, and is `Entry.stableSort` of them.

`stable_queue_run` is the refinement: whatever is asked of a new list, and however often one
line is put on it, the answers are those of the reference and the entries are the stable sort of
the survivors. `Queue.remove_cases` says which survivor a removal deletes.

Two lists in ascending priority are the same as soon as they have the same entries of each
priority, in the same order (`Entry.eq_of_filter_eq`). Sorting does not change this order
(`Entry.filter_stableSort`), an insertion appends to it and a removal erases from it, on the list
as among the survivors.
-/
import VirtualGic.Proofs.Apart
import Mathlib.Data.List.MinMax

namespace VirtualGic

set_option autoImplicit false

/-! ## The stable sort -/

namespace Entry

/-- Whether the priority value of an entry is at most that of another. -/
def upTo (a b : Entry) : Bool :=
  decide (a.priority ≤ b.priority)

/-- The entries by ascending priority, those of one priority in the order they had. -/
def stableSort (entries : List Entry) : List Entry :=
  entries.mergeSort upTo

variable {entry : Entry} {entries : List Entry}

theorem eq_of_line_of_priority {a b : Entry} (line : a.line = b.line)
    (priority : a.priority = b.priority) : a = b := by
  cases a
  cases line
  cases priority
  rfl

@[simp] theorem stableSort_nil : stableSort [] = [] :=
  List.mergeSort_nil

theorem upTo_trans (a b c : Entry) (first : a.upTo b) (second : b.upTo c) : a.upTo c := by
  simp only [upTo, decide_eq_true_eq] at *
  exact BitVec.le_trans first second

theorem upTo_total (a b : Entry) : a.upTo b || b.upTo a := by
  simpa [upTo] using BitVec.le_total a.priority b.priority

theorem ascending_stableSort (entries : List Entry) : Ascending (stableSort entries) :=
  (List.pairwise_mergeSort upTo_trans upTo_total entries).imp fun least => by
    simpa [upTo] using least

theorem perm_stableSort (entries : List Entry) : (stableSort entries).Perm entries :=
  List.mergeSort_perm entries upTo

/-- Sorting does not change the order of the entries of one priority. -/
theorem filter_stableSort (priority : Byte) (entries : List Entry) :
    (stableSort entries).filter (·.priority == priority) =
      entries.filter (·.priority == priority) := by
  -- The entries of one priority are a sorted part of the list, which stability leaves as it is.
  have level : (entries.filter (·.priority == priority)).Pairwise fun a b => a.upTo b := by
    refine List.pairwise_of_forall_mem_list fun a first b second => ?_
    have ha : a.priority = priority := by simpa using (List.mem_filter.1 first).2
    have hb : b.priority = priority := by simpa using (List.mem_filter.1 second).2
    simp [upTo, ha, hb]
  have kept := (List.sublist_mergeSort upTo_trans upTo_total level List.filter_sublist).filter
    (·.priority == priority)
  simp only [List.filter_filter, Bool.and_self] at kept
  exact (kept.eq_of_length ((perm_stableSort entries).filter _).length_eq.symm).symm

/-- A list in ascending priority is determined by its entries of each priority. -/
theorem eq_of_filter_eq {entries others : List Entry} (sorted : Ascending entries)
    (sorted' : Ascending others)
    (same : ∀ priority, entries.filter (·.priority == priority) =
      others.filter (·.priority == priority)) : entries = others := by
  have subset : ∀ {left right : List Entry}, (∀ priority,
      left.filter (·.priority == priority) = right.filter (·.priority == priority)) →
      left ⊆ right := by
    intro left right same entry member
    have : entry ∈ right.filter (·.priority == entry.priority) :=
      same entry.priority ▸ List.mem_filter.2 ⟨member, by simp⟩
    exact (List.mem_filter.1 this).1
  induction entries generalizing others with
  | nil => exact (List.subset_nil.1 (subset fun priority => (same priority).symm)).symm
  | cons head rest ih =>
      cases others with
      | nil => exact absurd (subset same List.mem_cons_self) List.not_mem_nil
      | cons head' rest' =>
          obtain ⟨first, behind⟩ := List.pairwise_cons.1 sorted
          obtain ⟨first', behind'⟩ := List.pairwise_cons.1 sorted'
          -- Each head is somewhere on the other list, so neither has the smaller priority.
          have level : head.priority = head'.priority := by
            have here := List.mem_cons.1 (subset same List.mem_cons_self)
            have there := List.mem_cons.1
              (subset (fun priority => (same priority).symm) List.mem_cons_self)
            rcases here with rfl | here
            · rfl
            · rcases there with rfl | there
              · rfl
              · exact BitVec.le_antisymm (first head' there) (first' head here)
          have heads := same head.priority
          simp only [List.filter_cons, level, beq_self_eq_true, if_true, List.cons.injEq] at heads
          obtain ⟨rfl, -⟩ := heads
          refine congrArg (head :: ·) (ih behind behind' fun priority => ?_)
          have tails := same priority
          simp only [List.filter_cons] at tails
          split at tails
          · exact List.cons.inj tails |>.2
          · exact tails

/-! ## Insertion and removal, priority by priority -/

/-- An entry is inserted behind all entries of its priority. -/
theorem filter_priority_insertInto (sorted : Ascending entries) (priority : Byte) :
    (entry.insertInto entries).filter (·.priority == priority) =
      (entries ++ [entry]).filter (·.priority == priority) := by
  induction entries with
  | nil => rfl
  | cons head rest ih =>
      obtain ⟨first, sorted'⟩ := List.pairwise_cons.1 sorted
      simp only [insertInto]
      split
      · rename_i less
        -- The place is in front, so all that follows has another priority.
        have above : ∀ other ∈ head :: rest, entry.priority < other.priority := by
          intro other member
          rcases List.mem_cons.1 member with rfl | member
          · exact less
          · exact Std.lt_of_lt_of_le less (first other member)
        by_cases own : entry.priority = priority
        · have none : (head :: rest).filter (·.priority == priority) = [] := by
            refine List.filter_eq_nil_iff.2 fun other member => ?_
            have ne := BitVec.ne_of_lt (above other member)
            simpa [own] using fun same => ne (own.trans same.symm)
          rw [List.filter_append, none, List.filter_cons_of_pos (by simpa using own), none]
          simp [own]
        · rw [List.filter_append, List.filter_cons_of_neg (by simpa using own)]
          simp [own]
      · rw [List.filter_cons, ih sorted', List.cons_append, List.filter_cons]

theorem stableSort_append_singleton (entries : List Entry) (entry : Entry) :
    stableSort (entries ++ [entry]) = entry.insertInto (stableSort entries) := by
  have sorted := ascending_stableSort entries
  refine eq_of_filter_eq (ascending_stableSort _) (ascending_insertInto sorted) fun priority => ?_
  rw [filter_stableSort, filter_priority_insertInto sorted, List.filter_append,
    List.filter_append, filter_stableSort]

theorem stableSort_erase (entries : List Entry) (entry : Entry) :
    stableSort (entries.erase entry) = (stableSort entries).erase entry := by
  have sorted := ascending_stableSort entries
  refine eq_of_filter_eq (ascending_stableSort _) (sorted.sublist List.erase_sublist)
    fun priority => ?_
  rw [filter_stableSort, ← List.erase_filter, ← List.erase_filter, filter_stableSort]

/-- The first entry of a line on a sorted list is one of least priority. -/
theorem eraseP_eq_erase (sorted : Ascending entries) (member : entry ∈ entries)
    (least : ∀ other ∈ entries, other.line = entry.line → entry.priority ≤ other.priority) :
    entries.eraseP (·.line == entry.line) = entries.erase entry := by
  induction entries with
  | nil => cases member
  | cons head rest ih =>
      obtain ⟨first, behind⟩ := List.pairwise_cons.1 sorted
      by_cases here : head.line = entry.line
      · have found : head = entry := by
          rcases List.mem_cons.1 member with rfl | member
          · rfl
          · exact eq_of_line_of_priority here
              (BitVec.le_antisymm (first entry member) (least head List.mem_cons_self here))
        rw [List.eraseP_cons_of_pos (by simpa using here), found, List.erase_cons_head]
      · have other : head ≠ entry := fun same => here (same ▸ rfl)
        have behind' : entry ∈ rest :=
          (List.mem_cons.1 member).resolve_left fun same => other same.symm
        rw [List.eraseP_cons_of_neg (by simpa using here),
          List.erase_cons_tail (by simpa using other),
          ih behind behind' fun other inside => least other (List.mem_cons_of_mem head inside)]

end Entry

/-! ## The queue -/

namespace Inflight

/-- What can be asked of an inflight list. -/
inductive Command where
  /-- Put a line on the list. -/
  | insert (line : Nat) (priority : Byte)
  /-- Take a line off the list. -/
  | remove (line : Nat)
  /-- Take everything off the list. -/
  | drain
  /-- Start to take everything off the list, and stop after some entries. -/
  | drainSome (count : Nat)
deriving DecidableEq

/-- What an inflight list replies. -/
inductive Reply where
  /-- The line is on the list. -/
  | inserted
  /-- Whether the line was on the list. -/
  | removed (there : Bool)
  /-- The entries that came off the list, in this order. -/
  | drained (entries : List Entry)
deriving DecidableEq

/-- Carry out a command on a list. -/
def perform (list : Inflight) : Command → Reply × Inflight
  | .insert line priority => (.inserted, list.insert line priority)
  | .remove line => (.removed (list.remove line).1, (list.remove line).2)
  | .drain => (.drained list.drain.1, list.drain.2)
  | .drainSome count => (.drained (list.drainSome count).1, (list.drainSome count).2)

/-- The reply to each of some commands, with the state that it leaves. -/
def Command.steps {State : Type} (perform : State → Command → Reply × State) :
    State → List Command → List (Reply × State)
  | _, [] => []
  | state, command :: commands =>
      perform state command :: steps perform (perform state command).2 commands

end Inflight

namespace Queue

/-- The survivor that a removal of the line deletes: of the entries of the line the one of
least priority value, the oldest where several are equal. -/
def next? (survivors : List Entry) (line : Nat) : Option Entry :=
  (survivors.filter (·.line == line)).argmin (·.priority.toNat)

/-- Carry out a command on survivors, which stand in the order of their insertion. -/
def perform (survivors : List Entry) : Inflight.Command → Inflight.Reply × List Entry
  | .insert line priority => (.inserted, survivors ++ [⟨line, priority⟩])
  | .remove line =>
      match next? survivors line with
      | some entry => (.removed true, survivors.erase entry)
      | none => (.removed false, survivors)
  | .drain => (.drained (Entry.stableSort survivors), [])
  | .drainSome count => (.drained ((Entry.stableSort survivors).take count), [])

variable {survivors : List Entry} {line : Nat} {entry : Entry}

theorem next?_eq_none_iff :
    next? survivors line = none ↔ ∀ entry ∈ survivors, entry.line ≠ line := by
  simp [next?, List.filter_eq_nil_iff]

/-- Entries of one line and one priority are equal, so which of them is the oldest is left to
`List.erase`, which deletes the first. -/
theorem next?_eq_some_iff : next? survivors line = some entry ↔
    entry ∈ survivors ∧ entry.line = line ∧
      ∀ other ∈ survivors, other.line = line → entry.priority ≤ other.priority := by
  simp only [next?, List.argmin_eq_some_iff, List.mem_filter, beq_iff_eq, and_imp]
  constructor
  · rintro ⟨⟨member, own⟩, least, -⟩
    exact ⟨member, own, least⟩
  · rintro ⟨member, own, least⟩
    refine ⟨⟨member, own⟩, least, fun other inside own' most => ?_⟩
    have same : entry = other := Entry.eq_of_line_of_priority (own.trans own'.symm)
      (BitVec.le_antisymm (least other inside own') most)
    rw [same]

/-- A removal deletes the oldest of the survivors of the line that have the least priority
value, or there is none and nothing changes. -/
theorem remove_cases (survivors : List Entry) (line : Nat) :
    (∃ older entry newer, survivors = older ++ entry :: newer ∧ entry.line = line ∧
      (∀ other ∈ older, other.line = line → entry.priority < other.priority) ∧
      (∀ other ∈ newer, other.line = line → entry.priority ≤ other.priority) ∧
      perform survivors (.remove line) = (.removed true, older ++ newer)) ∨
    (∀ entry ∈ survivors, entry.line ≠ line) ∧
      perform survivors (.remove line) = (.removed false, survivors) := by
  cases found : next? survivors line with
  | none => exact .inr ⟨next?_eq_none_iff.1 found, by simp only [perform, found]⟩
  | some entry =>
      obtain ⟨member, own, least⟩ := next?_eq_some_iff.1 found
      obtain ⟨older, newer, fresh, split, rest⟩ := List.exists_erase_eq member
      refine .inl ⟨older, entry, newer, split, own, fun other inside own' => ?_,
        fun other inside => least other (by simp [split, inside]),
        by simp only [perform, found, rest]⟩
      refine BitVec.lt_of_le_ne (least other (by simp [split, inside]) own') fun level => ?_
      have same := Entry.eq_of_line_of_priority (own.trans own'.symm) level
      exact fresh (same ▸ inside)

end Queue

/-! ## The list against the survivors -/

/-- One command keeps the entries the stable sort of the survivors, and is replied to alike. -/
theorem Inflight.perform_of_stableSort {list : Inflight} {survivors : List Entry}
    (same : list.entries = Entry.stableSort survivors) (command : Inflight.Command) :
    (list.perform command).1 = (Queue.perform survivors command).1 ∧
      (list.perform command).2.entries =
        Entry.stableSort (Queue.perform survivors command).2 := by
  have members : ∀ entry, entry ∈ list.entries ↔ entry ∈ survivors := fun entry => by
    rw [same]
    exact (Entry.perm_stableSort survivors).mem_iff
  cases command with
  | insert line priority =>
      exact ⟨rfl, by simp only [perform, insert, Queue.perform, same,
        Entry.stableSort_append_singleton]⟩
  | remove line =>
      cases found : Queue.next? survivors line with
      | none =>
          have absent : list.contains line = false := by
            have gone := Queue.next?_eq_none_iff.1 found
            simpa [contains, members] using gone
          simp only [perform, remove, absent, erase_of_not_contains absent, Queue.perform, found,
            same, and_self]
      | some entry =>
          obtain ⟨member, rfl, least⟩ := Queue.next?_eq_some_iff.1 found
          have there : list.contains entry.line = true := by
            simpa [contains] using ⟨entry, (members entry).2 member, rfl⟩
          have sorted : Entry.Ascending list.entries :=
            same ▸ Entry.ascending_stableSort survivors
          have taken := Entry.eraseP_eq_erase sorted ((members entry).2 member)
            fun other inside => least other ((members other).1 inside)
          rw [same] at taken
          simp only [perform, remove, there, erase, Queue.perform, found, same, taken,
            Entry.stableSort_erase, and_self]
  | drain => simp only [perform, drain, Queue.perform, same, Entry.stableSort_nil, and_self]
  | drainSome count =>
      simp only [perform, drainSome, drain, Queue.perform, same, Entry.stableSort_nil, and_self]

theorem Inflight.steps_of_stableSort {list : Inflight} {survivors : List Entry}
    (same : list.entries = Entry.stableSort survivors) (commands : List Inflight.Command) :
    (Command.steps perform list commands).map (fun step => (step.1, step.2.entries)) =
      (Command.steps Queue.perform survivors commands).map
        fun step => (step.1, Entry.stableSort step.2) := by
  induction commands generalizing list survivors with
  | nil => rfl
  | cons command commands ih =>
      obtain ⟨reply, after⟩ := perform_of_stableSort same command
      simp only [Command.steps, List.map_cons, reply, after, ih after]

/-- Whatever is asked of a new list: each reply is that of the reference, and after each command
the entries are the stable sort of the survivors by ascending priority. -/
theorem stable_queue_run (capacity : Nat) (commands : List Inflight.Command) :
    (Inflight.Command.steps Inflight.perform (.empty capacity) commands).map
        (fun step => (step.1, step.2.entries)) =
      (Inflight.Command.steps Queue.perform [] commands).map
        fun step => (step.1, Entry.stableSort step.2) := by
  have same : (Inflight.empty capacity).entries = Entry.stableSort [] := Entry.stableSort_nil.symm
  exact Inflight.steps_of_stableSort same commands

/-- Of two equal entries the older one goes, so line 6 is now in front. -/
example : (Inflight.Command.steps Inflight.perform (.empty 3)
    [.insert 5 160, .insert 6 160, .insert 5 160, .remove 5]).map (fun step => step.2.lines) =
      [[5], [5, 6], [5, 6, 5], [6, 5]] := by
  decide

end VirtualGic
