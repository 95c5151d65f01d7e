/-
# Register.Contents — registers with fields

The control, type and software-interrupt registers are made of fields. Here is
where each field lies, what the type register says about a configuration, and how
the software-interrupt register chooses its targets.
-/
import VirtualGic.Bits.Field
import VirtualGic.Config

namespace VirtualGic

set_option autoImplicit false

namespace Control

/-- Forward pending interrupts to the VCPUs. -/
def enableGroup : Field := ⟨0, 1⟩

/-- The fields of the control register by name. -/
def fields : List (String × Field) :=
  [("EnableGrp0", enableGroup)]

/-- The control register of a distributor that is enabled or not. -/
def ofEnabled (enabled : Bool) : Word :=
  enableGroup.place (if enabled then 1 else 0)

end Control

namespace TypeRegister

/-- The number of 32-line blocks of shared lines. -/
def sharedBlocks : Field := ⟨0, 5⟩

/-- The number of VCPUs minus one. -/
def cpuNumber : Field := ⟨5, 3⟩

/-- Whether the security extensions are there. -/
def securityExtension : Field := ⟨10, 1⟩

/-- The number of lockable shared lines. -/
def lockableLines : Field := ⟨11, 5⟩

/-- The fields of the type register by name. -/
def fields : List (String × Field) :=
  [("ITLinesNumber", sharedBlocks), ("CPUNumber", cpuNumber),
    ("SecurityExtn", securityExtension), ("LSPI", lockableLines)]

/-- The type register of a distributor with so many VCPUs and shared ranks. The
VCPU count is taken as a 32-bit number, and one below zero is a fault. -/
def contents (vcpus sharedRanks : Nat) : Result Word :=
  if vcpus % range32 = 0 then .error (.fault .arithmeticOverflow)
  else .ok (cpuNumber.place (BitVec.ofNat 32 (vcpus - 1)) |||
    sharedBlocks.place (BitVec.ofNat 32 sharedRanks))

end TypeRegister

/-- How a software interrupt chooses its targets. -/
inductive TargetFilter where
  /-- The VCPUs of an explicit list. -/
  | list
  /-- Every VCPU but the sender. -/
  | allButSelf
  /-- The sender alone. -/
  | selfOnly
deriving DecidableEq

namespace SoftwareInterrupt

/-- The line to raise. -/
def line : Field := ⟨0, 4⟩

/-- The secure-only group select, of no effect here. -/
def nonSecure : Field := ⟨15, 1⟩

/-- The explicit targets, one bit per VCPU. -/
def targetList : Field := ⟨16, 8⟩

/-- How the targets are chosen. -/
def targetFilter : Field := ⟨24, 2⟩

/-- The fields of the software-interrupt register by name. -/
def fields : List (String × Field) :=
  [("SGIINTID", line), ("NSATT", nonSecure), ("CPUTargetList", targetList),
    ("TargetListFilter", targetFilter)]

/-- The choice of targets a value stands for; one of the four values stands for
none. -/
def filter? (value : Word) : Option TargetFilter :=
  match (targetFilter.read value).toNat with
  | 0 => some .list
  | 1 => some .allButSelf
  | 2 => some .selfOnly
  | _ => none

/-- What a read of the write-only register gives. -/
def readValue : Word := 0xdeadbeef

end SoftwareInterrupt

end VirtualGic
