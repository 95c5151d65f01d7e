/-
# State.Inflight — the lines raised on a VCPU, in delivery order

An inflight list is ordered by ascending priority value, and entries of one priority
stand in the order of their insertion. Room for every line is reserved when the list
is made.
-/
import VirtualGic.Bits.Lane

namespace VirtualGic

set_option autoImplicit false

/-- A line raised on a VCPU. -/
structure Entry where
  /-- The number of the line. -/
  line : Nat
  /-- The priority the line had when it was queued. -/
  priority : Byte
deriving DecidableEq

namespace Entry

/-- Insert before the first entry of strictly greater priority. -/
def insertInto (entry : Entry) : List Entry → List Entry
  | [] => [entry]
  | head :: rest =>
      if entry.priority < head.priority then entry :: head :: rest
      else head :: insertInto entry rest

theorem mem_insertInto {entry other : Entry} {entries : List Entry} :
    other ∈ entry.insertInto entries ↔ other = entry ∨ other ∈ entries := by
  induction entries with
  | nil => simp [insertInto]
  | cons head rest ih =>
      simp only [insertInto]
      split
      · simp
      · simp only [List.mem_cons, ih]
        exact or_left_comm

theorem length_insertInto (entry : Entry) (entries : List Entry) :
    (entry.insertInto entries).length = entries.length + 1 := by
  induction entries with
  | nil => rfl
  | cons head rest ih =>
      simp only [insertInto]
      split
      · rfl
      · simp [ih]

end Entry

/-- The lines raised on a VCPU and not yet completed. -/
structure Inflight where
  /-- The number of entries for which room is reserved. -/
  capacity : Nat
  /-- The entries in delivery order. -/
  entries : List Entry := []
deriving DecidableEq

namespace Inflight

/-- A list without entries. -/
def empty (capacity : Nat) : Inflight :=
  { capacity }

/-- Queue a line behind every entry of its priority or a smaller one. -/
def insert (list : Inflight) (line : Nat) (priority : Byte) : Inflight :=
  { list with entries := Entry.insertInto ⟨line, priority⟩ list.entries }

/-- Whether the line is on the list. -/
def contains (list : Inflight) (line : Nat) : Bool :=
  list.entries.any (·.line == line)

/-- The list without the first entry of the line. -/
def erase (list : Inflight) (line : Nat) : Inflight :=
  { list with entries := list.entries.eraseP (·.line == line) }

/-- Take the first entry of the line off the list, and tell whether there was one. -/
def remove (list : Inflight) (line : Nat) : Bool × Inflight :=
  (list.contains line, list.erase line)

/-- The lines in delivery order. -/
def lines (list : Inflight) : List Nat :=
  list.entries.map (·.line)

/-- The number of entries. -/
def length (list : Inflight) : Nat :=
  list.entries.length

/-- Whether nothing is inflight. -/
def isEmpty (list : Inflight) : Bool :=
  list.entries.isEmpty

/-- Take every entry off the list. -/
def drain (list : Inflight) : List Entry × Inflight :=
  (list.entries, { list with entries := [] })

/-- Start to take every entry off the list, and stop after `count` of them. The entries
that were not reached are gone as well. -/
def drainSome (list : Inflight) (count : Nat) : List Entry × Inflight :=
  (list.drain.1.take count, list.drain.2)

theorem contains_iff_mem_lines (list : Inflight) (line : Nat) :
    list.contains line = true ↔ line ∈ list.lines := by
  simp [contains, lines, List.any_eq_true]

theorem erase_of_not_contains {list : Inflight} {line : Nat} (h : list.contains line = false) :
    list.erase line = list := by
  have : list.entries.eraseP (·.line == line) = list.entries := by
    apply List.eraseP_of_forall_not
    simpa [contains] using h
  simp [erase, this]

end Inflight

end VirtualGic
