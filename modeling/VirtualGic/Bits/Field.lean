/-
# Bits.Field — named bit fields of a register word

A field is a run of `width` bits from bit `offset` up. It is read as a number of
its own and written without touching the other bits of the word. Bit `i` of the number is
bit `offset + i` of the word (`getLsbD_read`).
-/
import VirtualGic.Bits.Lane

namespace VirtualGic

set_option autoImplicit false

/-- A run of bits inside a word. -/
structure Field where
  /-- The lowest bit of the field. -/
  offset : Nat
  /-- How many bits the field has. -/
  width : Nat
deriving DecidableEq

namespace Field

/-- The bits of the field, moved down to bit 0. -/
def ones (field : Field) : Word :=
  BitVec.ofNat 32 ((1 <<< field.width) - 1)

/-- The value of the field in `word`. -/
def read (field : Field) (word : Word) : Word :=
  (word >>> field.offset) &&& field.ones

/-- Whether any bit of the field is set in `word`. -/
def isSet (field : Field) (word : Word) : Bool :=
  field.read word != 0

/-- The word that holds the low bits of `value` in the field and zero elsewhere. -/
def place (field : Field) (value : Word) : Word :=
  (value &&& field.ones) <<< field.offset

/-- The word with the field replaced by the low bits of `value`. -/
def write (field : Field) (word value : Word) : Word :=
  (word &&& ~~~(field.ones <<< field.offset)) ||| field.place value

theorem getLsbD_read (field : Field) (fits : field.width ≤ 32) (word : Word) (bit : Nat) :
    (field.read word).getLsbD bit =
      (decide (bit < field.width) && word.getLsbD (field.offset + bit)) := by
  have ones : field.ones.getLsbD bit = decide (bit < field.width) := by
    rw [Field.ones, Nat.one_shiftLeft, BitVec.getLsbD_ofNat, Nat.testBit_two_pow_sub_one]
    by_cases inside : bit < field.width
    · simp [inside, Nat.lt_of_lt_of_le inside fits]
    · simp [inside]
  rw [read, BitVec.getLsbD_and, BitVec.getLsbD_ushiftRight, ones, Bool.and_comm]

end Field

end VirtualGic
