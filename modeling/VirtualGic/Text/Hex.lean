/-
# Text.Hex — hexadecimal numbers in messages

Lower-case digits under `0x`, without leading zeros (`hex`) or filled up with zeros
to a total length that counts the `0x` (`paddedHex`).
-/
namespace VirtualGic.Text

set_option autoImplicit false

/-- The lower-case hexadecimal digits of a number, `0` for zero. -/
def hexDigits (n : Nat) : List Char :=
  Nat.toDigits 16 n

/-- A number in hexadecimal, without leading zeros. -/
def hex (n : Nat) : String :=
  "0x" ++ String.ofList (hexDigits n)

/-- A number in hexadecimal, with at least `length` characters in all. -/
def paddedHex (length n : Nat) : String :=
  "0x" ++ String.ofList (List.replicate (length - 2 - (hexDigits n).length) '0' ++ hexDigits n)

/-- An offset into the register frame, as messages show it. -/
def frameOffset (offset : Nat) : String :=
  paddedHex 5 offset

end VirtualGic.Text
