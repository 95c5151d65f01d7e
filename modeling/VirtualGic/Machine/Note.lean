/-
# Machine.Note — what a distributor writes to the log

A note is a fact worth recording, with its data. Its level and its wording are
functions of the note, so operations say what happened and never how it reads.
-/
import VirtualGic.Access.Width
import VirtualGic.Bits.Lane
import VirtualGic.Text.Hex

namespace VirtualGic

set_option autoImplicit false

/-- How urgent a note is. -/
inductive Level where
  | error
  | warn
  | info
  | debug
  | trace
deriving DecidableEq

namespace Level

/-- The name of the level in the log. -/
def name : Level → String
  | error => "ERROR"
  | warn => "WARN"
  | info => "INFO"
  | debug => "DEBUG"
  | trace => "TRACE"

/-- How many levels are at least as urgent. -/
def verbosity : Level → Nat
  | error => 1
  | warn => 2
  | info => 3
  | debug => 4
  | trace => 5

/-- Whether a log that keeps notes up to `maximum` keeps notes of this level. -/
def keptBy (level maximum : Level) : Bool :=
  level.verbosity ≤ maximum.verbosity

/-- The level up to which notes are kept when nobody chooses another. -/
def standard : Level := info

end Level

/-- Something worth recording. -/
inductive Note where
  | created (vcpus spis : Nat) (base : BitVec 64)
  | discarded (vcpus : Nat)
  | vcpuAllocated (v : Nat)
  | vcpuReleased (v : Nat)
  | lineDropped (line v : Nat)
  | lineInflight (line v : Nat)
  | ownerMissing (line v : Nat)
  | pendingCleared (v : Nat)
  | lineRouted (line irq : Nat)
  | distributorSwitched (v : Nat) (enabled : Bool)
  | readUnhandled (v offset : Nat)
  | writeIgnored (value : Word) (offset : Nat)
  | writeUnhandled (v : Nat) (width : Width) (value : Word) (offset : Nat)
  | rankAbsent (offset : Nat)
  | registerRead (v : Nat) (name : String) (position : Nat) (value : Word)
  | registerWritten (v : Nat) (name : String) (position : Nat) (value : Word)
  | offsetUnknown (v offset : Nat)
  | widthRefused (v : Nat) (width : Width) (name : String) (offset : Nat)
  | filterInvalid (v : Nat) (value : Word)
  | targetBad (value : Word) (v target : Nat)
  | softwareInterrupt (line v target : Nat)
deriving DecidableEq

namespace Note

/-- The level of a note. -/
def level : Note → Level
  | widthRefused .. => .error
  | ownerMissing .. | readUnhandled .. | writeUnhandled .. | offsetUnknown .. | filterInvalid ..
  | targetBad .. => .warn
  | created .. | discarded .. | lineRouted .. | distributorSwitched .. => .info
  | vcpuAllocated .. | vcpuReleased .. | lineDropped .. | pendingCleared .. => .debug
  | lineInflight .. | writeIgnored .. | rankAbsent .. | registerRead .. | registerWritten ..
  | softwareInterrupt .. => .trace

/-- A register word without leading zeros. -/
def short (value : Word) : String :=
  Text.hex value.toNat

/-- A register word with all its digits. -/
def full (value : Word) : String :=
  Text.paddedHex 10 value.toNat

/-- The wording of a note. -/
def text : Note → String
  | created vcpus spis base =>
      s!"VGIC initialized: {vcpus} VCPUs, {spis} SPIs, distributor at {Text.hex base.toNat}"
  | discarded vcpus => s!"VGIC: releasing distributor for {vcpus} VCPUs"
  | vcpuAllocated v => s!"VGIC: VCPU {v} private state allocated"
  | vcpuReleased v => s!"VGIC: VCPU {v} private state released"
  | lineDropped line v => s!"VGIC: dropped line {line} for offline VCPU {v}"
  | lineInflight line v => s!"VGIC: line {line} inflight on VCPU {v}"
  | ownerMissing line v => s!"VGIC: line {line} claimed by missing VCPU {v}"
  | pendingCleared v => s!"VGIC: cleared pending lines of VCPU {v}"
  | lineRouted line irq => s!"VGIC: line {line} routed to physical IRQ {irq}"
  | distributorSwitched v true => s!"VGIC: VCPU {v} enabled the distributor"
  | distributorSwitched v false => s!"VGIC: VCPU {v} disabled the distributor"
  | readUnhandled v offset =>
      s!"VGIC: VCPU {v} unhandled read at offset {Text.frameOffset offset}"
  | writeIgnored value offset =>
      s!"VGIC: ignored write {short value} at offset {Text.frameOffset offset}"
  | writeUnhandled v width value offset =>
      s!"VGIC: VCPU {v} unhandled {width.size}-byte write {short value} at offset " ++
        Text.frameOffset offset
  | rankAbsent offset =>
      s!"VGIC: write to absent rank at offset {Text.frameOffset offset} ignored"
  | registerRead v name position value =>
      s!"VGIC: VCPU {v} read {name} +{Text.hex position} = {short value}"
  | registerWritten v name position value =>
      s!"VGIC: VCPU {v} write {name} +{Text.hex position} = {short value}"
  | offsetUnknown v offset => s!"VGIC: VCPU {v} access to unknown offset {Text.hex offset}"
  | widthRefused v width name offset =>
      s!"VGIC: VCPU {v} bad {width.size}-byte access to {name} at offset " ++
        s!"{Text.frameOffset offset}, crashing domain"
  | filterInvalid v value =>
      s!"VGIC: VCPU {v} wrote SGIR {full value} with an invalid target filter"
  | targetBad value v target =>
      s!"VGIC: SGIR {full value} from VCPU {v} names bad target VCPU {target}"
  | softwareInterrupt line v target => s!"VGIC: SGI {line} from VCPU {v} to VCPU {target}"

end Note

end VirtualGic
