/-
# Access.Width — how many bytes a trapped access moves

The trap layer reports four widths. Register groups accept bytes, words or both, as
`Widths` says; halfwords and doublewords are accepted by none.
-/
namespace VirtualGic

set_option autoImplicit false

/-- The width of a trapped access. -/
inductive Width where
  | byte
  | halfword
  | word
  | doubleword
deriving DecidableEq

namespace Width

/-- The width of an access of `size` bytes, if there is one. -/
def ofSize? : Nat → Option Width
  | 1 => some .byte
  | 2 => some .halfword
  | 4 => some .word
  | 8 => some .doubleword
  | _ => none

/-- The number of bytes an access of this width moves. -/
def size : Width → Nat
  | byte => 1
  | halfword => 2
  | word => 4
  | doubleword => 8

theorem ofSize?_size (width : Width) : ofSize? width.size = some width := by
  cases width <;> rfl

theorem size_eq_of_ofSize? {size : Nat} {width : Width} (h : ofSize? size = some width) :
    width.size = size := by
  unfold ofSize? at h
  split at h <;> simp at h <;> subst h <;> rfl

end Width

/-- The widths a register group accepts. -/
inductive Widths where
  | wordOnly
  | byteOrWord
deriving DecidableEq

/-- Whether an access of the given width is accepted. -/
def Widths.allow : Widths → Width → Bool
  | _, .word => true
  | byteOrWord, .byte => true
  | _, _ => false

end VirtualGic
