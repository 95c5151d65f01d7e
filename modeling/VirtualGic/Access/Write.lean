/-
# Access.Write — trapped writes

Registers that belong to a rank ignore writes where the rank is absent. Enable and
disable writes reach the lines whose bit they change, and no others. The targets of
lines 0 to 7 and the triggers of private lines are fixed. The pending bitmap and the
senders of software interrupts are not writable, and the trap layer is told so.
-/
import VirtualGic.Access.Read
import VirtualGic.Delivery.Masking
import VirtualGic.Delivery.Software

namespace VirtualGic

set_option autoImplicit false

namespace Machine

variable {σ : Type} [Host σ]

/-- Accept a write without any effect. -/
def ignoreWrite (access : Access) (value : Word) (m : Machine σ) : Result Unit × Machine σ :=
  (.ok (), m.note (.writeIgnored value access.offset))

/-- Leave a write to the trap layer. -/
def refuseWrite (v : Nat) (access : Access) (value : Word) (m : Machine σ) :
    Result Unit × Machine σ :=
  (.error (.refused (.unhandled access.offset)),
    m.note (.writeUnhandled v access.width value access.offset))

/-- Switch the distributor on or off. -/
def writeControl (v : Nat) (value : Word) (m : Machine σ) : Result Unit × Machine σ :=
  let enabled := Control.enableGroup.isSet value
  let stored := m.modify ({ · with enabled })
  if m.dist.enabled = enabled then (.ok (), stored)
  else (.ok (), stored.note (.distributorSwitched v enabled))

/-- Change a word of a bank of the rank that VCPU `v` addresses. -/
def writeBank (v : Nat) (access : Access) (bank : Bank) (f : Word → Word) (m : Machine σ) :
    Result Unit × Machine σ :=
  let index := rankIndex bank.words access.position
  let word := wordIndex bank.words access.position
  match m.dist.rank? v index with
  | none => (.ok (), m.note (.rankAbsent access.offset))
  | some rank =>
      match rank.word? bank word with
      | none => (.error (.fault .indexOutOfRange), m)
      | some old => (.ok (), m.modify (·.updateRank v index (·.setWord bank word (f old))))

/-- Enable the lines that `value` names and that are not enabled. -/
def writeSetEnable (v : Nat) (access : Access) (value : Word) (m : Machine σ) :
    Result Unit × Machine σ :=
  let index := rankIndex Bank.enable.words access.position
  match m.dist.rank? v index with
  | none => (.ok (), m.note (.rankAbsent access.offset))
  | some rank =>
      let changed := value &&& ~~~rank.enable
      let stored := m.modify
        (·.updateRank v index fun rank => { rank with enable := rank.enable ||| value })
      if changed = 0 then (.ok (), stored) else stored.enableMask v changed index

/-- Disable the lines that `value` names and that are enabled. -/
def writeClearEnable (v : Nat) (access : Access) (value : Word) (m : Machine σ) :
    Result Unit × Machine σ :=
  let index := rankIndex Bank.enable.words access.position
  match m.dist.rank? v index with
  | none => (.ok (), m.note (.rankAbsent access.offset))
  | some rank =>
      let changed := value &&& rank.enable
      let stored := m.modify
        (·.updateRank v index fun rank => { rank with enable := rank.enable &&& ~~~value })
      if changed = 0 then (.ok (), stored) else stored.disableMask (fun _ => []) v changed index

/-- Write a register as VCPU `v`. -/
def writeRegister (v : Nat) (access : Access) (value : Word) (m : Machine σ) :
    Register → Result Unit × Machine σ
  | .control => m.writeControl v value
  | .typeRegister | .implementer | .zero | .setActive | .peripheralId => m.ignoreWrite access value
  | .setEnable => m.writeSetEnable v access value
  | .clearEnable => m.writeClearEnable v access value
  | .setPending | .clearPending | .clearSoftwarePending | .setSoftwarePending =>
      m.refuseWrite v access value
  | .clearActive => m.writeBank v access .active (· &&& ~~~value)
  | .priority => m.writeBank v access .priority (access.merge value)
  | .targets =>
      if access.offset < Frame.firstWritableTarget then m.ignoreWrite access value
      else m.writeBank v access .targets (access.merge value)
  | .trigger =>
      if access.offset < Frame.firstWritableTrigger then m.ignoreWrite access value
      else m.writeBank v access .trigger fun _ => value
  | .softwareInterrupt => m.sendSoftware v value

/-- VCPU `v` writes the register at `offset` of the frame. -/
def write (v offset : Nat) (width : Width) (value : Word) (m : Machine σ) :
    Result Unit × Machine σ :=
  match m.dist.requireVcpu v with
  | .error error => (.error (.refused error), m)
  | .ok _ =>
      match m.decode v offset width with
      | (.error error, m) => (.error (.refused error), m)
      | (.ok group, m) =>
          let access : Access := { offset, position := offset - group.first, width }
          let noted := m.note (.registerWritten v group.name access.position value)
          noted.writeRegister v access value group.register

/-- VCPU `v` writes at the guest-physical `address`. -/
def writeAt (v : Nat) (address : BitVec 64) (width : Width) (value : Word) (m : Machine σ) :
    Result Unit × Machine σ :=
  match m.dist.config.frameOffset address with
  | .error error => (.error (.refused error), m)
  | .ok offset => m.write v offset width value

end Machine

end VirtualGic
