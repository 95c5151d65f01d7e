/-
# Access.Read — trapped reads

A read changes nothing but the log. Registers that belong to a rank read as zero where
the rank is absent. The enable bitmap is read through both of its groups, and so are
the pending and the active bitmap and the senders of software interrupts.
-/
import VirtualGic.Access.Decoded
import VirtualGic.Register.Contents
import VirtualGic.Version

namespace VirtualGic

set_option autoImplicit false

namespace Distributor

/-- Read a word of a bank of the rank that VCPU `v` addresses. -/
def readBank (d : Distributor) (v : Nat) (access : Access) (bank : Bank) : Result Word :=
  match d.rank? v (rankIndex bank.words access.position) with
  | none => .ok 0
  | some rank =>
      match rank.word? bank (wordIndex bank.words access.position) with
      | none => .error (.fault .indexOutOfRange)
      | some word => .ok (access.extract word)

/-- Read the senders of software interrupts pending for VCPU `v`. -/
def readSenders (d : Distributor) (v : Nat) (access : Access) : Result Word :=
  match (d.rank? v 0).bind (·.word? .senders (access.position / 4)) with
  | none => .error (.fault .indexOutOfRange)
  | some word => .ok (access.extract word)

/-- Read a register as VCPU `v`. -/
def readRegister (d : Distributor) (v : Nat) (access : Access) : Register → Result Word
  | .control => .ok (Control.ofEnabled d.enabled)
  | .typeRegister => TypeRegister.contents d.config.vcpus d.sharedRanks.size
  | .implementer => .ok Frame.implementerValue
  | .zero => .ok 0
  | .setEnable | .clearEnable => d.readBank v access .enable
  | .setPending | .clearPending => d.readBank v access .pending
  | .setActive | .clearActive => d.readBank v access .active
  | .priority => d.readBank v access .priority
  | .targets => d.readBank v access .targets
  | .trigger => d.readBank v access .trigger
  | .softwareInterrupt => .ok SoftwareInterrupt.readValue
  | .clearSoftwarePending | .setSoftwarePending => d.readSenders v access
  | .peripheralId => .error (.refused (.unhandled access.offset))

end Distributor

namespace Machine

variable {σ : Type} [Host σ]

/-- VCPU `v` reads the register at `offset` of the frame. -/
def read (v offset : Nat) (width : Width) (signed : Bool) (m : Machine σ) :
    Result Word × Machine σ :=
  match m.dist.requireVcpu v with
  | .error error => (.error (.refused error), m)
  | .ok _ =>
      match m.decode v offset width with
      | (.error error, m) => (.error (.refused error), m)
      | (.ok group, m) =>
          let access : Access := ⟨offset, offset - group.first, width, signed⟩
          match m.dist.readRegister v access group.register with
          | .error (.refused error) => (.error (.refused error), m.note (.readUnhandled v offset))
          | .error (.fault fault) => (.error (.fault fault), m)
          | .ok value => (.ok value, m.note (.registerRead v group.name access.position value))

/-- VCPU `v` reads at the guest-physical `address`. -/
def readAt (v : Nat) (address : BitVec 64) (width : Width) (signed : Bool) (m : Machine σ) :
    Result Word × Machine σ :=
  match m.dist.config.frameOffset address with
  | .error error => (.error (.refused error), m)
  | .ok offset => m.read v offset width signed

end Machine

end VirtualGic
