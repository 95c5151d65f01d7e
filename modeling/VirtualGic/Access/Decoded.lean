/-
# Access.Decoded — a trapped access, taken apart

A trapped access names a byte of the frame and a width. `Config.frameOffset` turns a
guest-physical address into an offset, and `Machine.decode` finds the register group
and checks the width. A width that the group does not accept is the end of the domain;
an offset in no group is left to the trap layer.
-/
import VirtualGic.Machine.Basic
import VirtualGic.Register.Frame

namespace VirtualGic

set_option autoImplicit false

/-- An access to a register group. -/
structure Access where
  /-- The offset into the frame. -/
  offset : Nat
  /-- The offset from the start of the group. -/
  position : Nat
  /-- How many bytes are moved. -/
  width : Width
  /-- Whether a byte read is widened by its sign. -/
  signed : Bool := false
deriving DecidableEq

namespace Access

/-- What a read of `word` gives. -/
def extract (access : Access) (word : Word) : Word :=
  match access.width with
  | .byte => Word.readLane word access.signed access.position
  | _ => word

/-- The word after a write of `value`. -/
def merge (access : Access) (value word : Word) : Word :=
  match access.width with
  | .byte => Word.writeLane word access.position value
  | _ => value

end Access

namespace Config

/-- Whether the guest-physical `address` lies in the frame. -/
def frameContains (config : Config) (address : BitVec 64) : Bool :=
  config.base ≤ address && (address - config.base).toNat < Frame.size

/-- The offset of a guest-physical address into the frame. An address outside is
unhandled, at the low 32 bits of its distance from the base. -/
def frameOffset (config : Config) (address : BitVec 64) : Except Error Nat :=
  if config.frameContains address then .ok (address - config.base).toNat
  else .error (.unhandled ((address - config.base).toNat % range32))

end Config

namespace Machine

variable {σ : Type} [Host σ]

/-- The register group that VCPU `v` accesses at `offset`. -/
def decode (m : Machine σ) (v offset : Nat) (width : Width) : Except Error Group × Machine σ :=
  match Frame.group? offset with
  | none => (.error (.unhandled offset), m.note (.offsetUnknown v offset))
  | some group =>
      if group.widths.allow width then (.ok group, m)
      else
        (.error (.badWidth offset width),
          (m.note (.widthRefused v width group.name offset)).call .crash)

end Machine

end VirtualGic
