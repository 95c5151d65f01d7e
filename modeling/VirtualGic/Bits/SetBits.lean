/-
# Bits.SetBits — the set bits of a mask, lowest first

Masks name lines of a rank and targets of a software interrupt, and both are
served in ascending order. `SetBits` is what is left of such a walk: `next?` takes
the lowest set bit off, `size` says how many are to come, and `toList` is the whole
walk. The walk is `take` of its own size, so the recursion is structural and
concrete walks reduce.
-/
import VirtualGic.Bits.Lane

namespace VirtualGic

set_option autoImplicit false

/-- The bits of a mask that a walk has still to visit. -/
structure SetBits where
  /-- The bits to come. -/
  mask : Word
deriving DecidableEq

namespace SetBits

/-- The position of the lowest set bit; `32` when there is none. -/
def lowest (mask : Word) : Nat :=
  ((List.range 32).find? mask.getLsbD).getD 32

/-- The lowest set bit and the rest of the walk, nothing once every bit is visited. -/
def next? (bits : SetBits) : Option (Nat × SetBits) :=
  if bits.mask = 0 then none
  else some (lowest bits.mask, ⟨bits.mask &&& (bits.mask - 1)⟩)

/-- How many bits are to come. -/
def size (bits : SetBits) : Nat :=
  (List.range 32).countP bits.mask.getLsbD

/-- The first `count` bits of the walk, fewer if it ends before. -/
def take : Nat → SetBits → List Nat
  | 0, _ => []
  | count + 1, bits =>
      match bits.next? with
      | none => []
      | some (bit, rest) => bit :: take count rest

/-- What is left of the walk after `count` steps. -/
def drop : Nat → SetBits → SetBits
  | 0, bits => bits
  | count + 1, bits =>
      match bits.next? with
      | none => bits
      | some (_, rest) => drop count rest

/-- The positions of the set bits, in ascending order. -/
def toList (bits : SetBits) : List Nat :=
  bits.take bits.size

theorem next?_eq_none_iff (bits : SetBits) : bits.next? = none ↔ bits.mask = 0 := by
  unfold next?
  split <;> simp_all

end SetBits

end VirtualGic
