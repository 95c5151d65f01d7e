/-
# Config — the settings of one domain's distributor

A configuration fixes where the register frame lies, how many VCPUs and shared
lines the domain has, and which line carries event-channel upcalls. `validate`
accepts it or names the first defect, in the order VCPU count, line count, base
alignment, upcall line.
-/
import VirtualGic.Failure

namespace VirtualGic

set_option autoImplicit false

/-- The largest number of VCPUs: target masks are eight bits wide. -/
def maxVcpus : Nat := 8

/-- The largest number of interrupt lines of the architecture. -/
def maxLines : Nat := 1020

/-- The number of private lines of a VCPU, also the number of lines in a rank. -/
def linesPerRank : Nat := 32

/-- How many 32-bit numbers there are. -/
def range32 : Nat := 0x100000000

/-- How many 64-bit numbers there are. -/
def range64 : Nat := 0x10000000000000000

/-- The size of a guest page, to which the frame is aligned. -/
def pageSize : Nat := 4096

/-- The settings of a domain's distributor. -/
structure Config where
  /-- The guest-physical address of the register frame. -/
  base : BitVec 64 := 0x08000000
  /-- The number of VCPUs. -/
  vcpus : Nat
  /-- The number of shared lines. -/
  spis : Nat := 0
  /-- The line that carries event-channel upcalls. -/
  upcallLine : Nat := 31
deriving DecidableEq

namespace Config

/-- An unprivileged guest: private lines only. -/
def forGuest (vcpus : Nat) : Config :=
  { vcpus }

/-- The hardware domain: as many shared lines as the `lines` of the physical
controller leave beside the private ones. -/
def forHardware (vcpus lines : Nat) : Config :=
  { forGuest vcpus with spis := lines - linesPerRank }

/-- A guest with one VCPU. -/
def standard : Config :=
  forGuest 1

/-- The number of ranks that hold the shared lines; the last may be partly used. -/
def sharedRanks (config : Config) : Nat :=
  (config.spis + (linesPerRank - 1)) / linesPerRank

/-- The number of all lines, private ones included. It is a 32-bit number, and a
count that does not fit is a fault. -/
def lineCount (config : Config) : Except Fault Nat :=
  if linesPerRank + config.spis < range32 then .ok (linesPerRank + config.spis)
  else .error .arithmeticOverflow

/-- Accept the configuration, or say what is wrong with it. -/
def validate (config : Config) : Result Unit :=
  if config.vcpus = 0 ∨ maxVcpus < config.vcpus then
    .error (.refused (.invalidConfig .vcpuCount))
  else
    match config.lineCount with
    | .error fault => .error (.fault fault)
    | .ok lines =>
        if maxLines < lines then .error (.refused (.invalidConfig .lineCount))
        else if config.base.toNat % pageSize ≠ 0 then
          .error (.refused (.invalidConfig .baseAlignment))
        else if lines ≤ config.upcallLine then
          .error (.refused (.invalidConfig .upcallLine))
        else .ok ()

/-- The settings in one line. -/
def describe (config : Config) : String :=
  "VgicConfig \x7b " ++
    s!"dist_base: {config.base.toNat}, nr_vcpus: {config.vcpus}, nr_spis: {config.spis}, " ++
    s!"evtchn_irq: {config.upcallLine}" ++ " \x7d"

end Config

end VirtualGic
