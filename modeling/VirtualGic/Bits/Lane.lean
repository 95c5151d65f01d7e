/-
# Bits.Lane — register words and the bytes inside them

A distributor register is a 32-bit word. Groups with one byte per line are also
reached one byte at a time, through the four lanes of a word: lane `i % 4` of a
word holds its bits `8 * (i % 4)` to `8 * (i % 4) + 7`. Any index selects a lane,
so the byte offset of an access can be used as it comes.

The lanes of a word are independent: a lane holds what was stored in it
(`lane_setLane_self`), and storing in one leaves the others alone (`lane_setLane_ne`).
-/
namespace VirtualGic

set_option autoImplicit false

/-- A 32-bit register word. -/
abbrev Word := BitVec 32

/-- One byte lane of a word, also a priority or a target mask. -/
abbrev Byte := BitVec 8

namespace Word

/-- The position of the lowest bit of the lane that `index` selects. -/
def laneShift (index : Nat) : Nat :=
  8 * (index % 4)

/-- The byte in the lane that `index` selects. -/
def lane (word : Word) (index : Nat) : Byte :=
  word.extractLsb' (laneShift index) 8

/-- The word with the lane that `index` selects replaced by `byte`. -/
def setLane (word : Word) (index : Nat) (byte : Byte) : Word :=
  (word &&& ~~~(BitVec.setWidth 32 (0xff#8) <<< laneShift index)) |||
    (byte.setWidth 32 <<< laneShift index)

/-- A lane widened to a word: by its sign bit when `signed`, by zeros otherwise. -/
def readLane (word : Word) (signed : Bool) (index : Nat) : Word :=
  if signed then (lane word index).signExtend 32 else (lane word index).setWidth 32

/-- Store the low byte of `value` in the lane that `index` selects. -/
def writeLane (word : Word) (index : Nat) (value : Word) : Word :=
  setLane word index (value.setWidth 8)

/-- The word with `byte` in all four lanes. -/
def splat (byte : Byte) : Word :=
  byte ++ byte ++ byte ++ byte

theorem laneShift_lt (index : Nat) : laneShift index < 32 := by
  unfold laneShift; omega

theorem getLsbD_lane (word : Word) (index bit : Nat) :
    (lane word index).getLsbD bit = (decide (bit < 8) && word.getLsbD (laneShift index + bit)) := by
  simp [lane, BitVec.getLsbD_extractLsb']

theorem getLsbD_setLane (word : Word) (index : Nat) (byte : Byte) {bit : Nat} (h : bit < 32) :
    (setLane word index byte).getLsbD bit =
      if laneShift index ≤ bit ∧ bit < laneShift index + 8 then
        byte.getLsbD (bit - laneShift index)
      else word.getLsbD bit := by
  have ones : ∀ n, (0xff#8).getLsbD n = decide (n < 8) := by
    intro n
    by_cases small : n < 8
    · have : ∀ n : Fin 8, (0xff#8).getLsbD n = true := by decide
      simpa [small] using this ⟨n, small⟩
    · simpa [small] using BitVec.getLsbD_of_ge (0xff#8) n (by omega)
  simp only [setLane, BitVec.getLsbD_or, BitVec.getLsbD_and, BitVec.getLsbD_not,
    BitVec.getLsbD_shiftLeft, BitVec.getLsbD_setWidth, ones, h, decide_true, Bool.true_and]
  by_cases low : bit < laneShift index
  · have : ¬ laneShift index ≤ bit := by omega
    simp [low, this]
  · have high : laneShift index ≤ bit := by omega
    by_cases inside : bit < laneShift index + 8
    · have : bit - laneShift index < 8 := by omega
      have small : bit - laneShift index < 32 := by omega
      simp [low, high, inside, this, small]
    · have out : ¬ bit - laneShift index < 8 := by omega
      have : byte.getLsbD (bit - laneShift index) = false := BitVec.getLsbD_of_ge _ _ (by omega)
      simp [low, inside, out, this]

/-- A lane holds what was stored in it. -/
theorem lane_setLane_self (word : Word) (index : Nat) (byte : Byte) :
    lane (setLane word index byte) index = byte := by
  apply BitVec.eq_of_getLsbD_eq
  intro bit small
  have := laneShift_lt index
  have inside : laneShift index + bit < 32 := by
    simp only [laneShift] at this ⊢
    omega
  rw [getLsbD_lane, getLsbD_setLane word index byte inside]
  simp [small]

/-- Storing a byte leaves the other lanes alone. -/
theorem lane_setLane_ne (word : Word) {index other : Nat} (byte : Byte)
    (ne : index % 4 ≠ other % 4) : lane (setLane word index byte) other = lane word other := by
  apply BitVec.eq_of_getLsbD_eq
  intro bit small
  have inside : laneShift other + bit < 32 := by
    simp only [laneShift]
    omega
  have outside : ¬ (laneShift index ≤ laneShift other + bit ∧
      laneShift other + bit < laneShift index + 8) := by
    simp only [laneShift]
    omega
  rw [getLsbD_lane, getLsbD_lane, getLsbD_setLane word index byte inside, if_neg outside]

end Word

end VirtualGic
