/-
# Failure — why an operation does not answer

An operation that refuses its arguments gives an `Error`, a cause with its data.
An operation whose arithmetic leaves the machine's ranges gives a `Fault`: counts
and indices are natural numbers here, and wherever a 32-bit or 64-bit number, an
array or a fixed capacity would be overrun, the fault is raised in place of a wrong
result. `Failure` is either of the two, and `Result` is an answer or a failure.
-/
import VirtualGic.Access.Width
import VirtualGic.Text.Hex

namespace VirtualGic

set_option autoImplicit false

/-- What is wrong with a rejected configuration. -/
inductive ConfigDefect where
  | vcpuCount
  | lineCount
  | baseAlignment
  | upcallLine
deriving DecidableEq

/-- The defect in words. -/
def ConfigDefect.message : ConfigDefect → String
  | vcpuCount => "vcpu count out of range"
  | lineCount => "too many shared lines"
  | baseAlignment => "distributor base not page aligned"
  | upcallLine => "event-channel line out of range"

/-- Why an operation was refused. -/
inductive Error where
  /-- The register group at `offset` does not accept the width; the domain has been
  crashed. -/
  | badWidth (offset : Nat) (width : Width)
  /-- The distributor does not emulate the access. -/
  | unhandled (offset : Nat)
  /-- There is no such VCPU, or it has no state yet. -/
  | invalidVcpu (id : Nat)
  /-- The VCPU has its state already. -/
  | vcpuAlreadyInitialized (id : Nat)
  /-- No descriptor exists for the line. -/
  | invalidLine (line : Nat)
  /-- The configuration is rejected. -/
  | invalidConfig (defect : ConfigDefect)
deriving DecidableEq

namespace Error

/-- The cause in words. -/
def message : Error → String
  | badWidth offset width =>
      s!"bad {width.size}-byte access at offset {Text.frameOffset offset}"
  | unhandled offset => s!"unhandled access at offset {Text.frameOffset offset}"
  | invalidVcpu id => s!"invalid vcpu {id}"
  | vcpuAlreadyInitialized id => s!"vcpu {id} already initialized"
  | invalidLine line => s!"invalid line {line}"
  | invalidConfig defect => s!"invalid configuration: {defect.message}"

/-- The cause in words, under the name of the component it comes from. -/
def report (error : Error) : String :=
  "vgic: " ++ error.message

end Error

/-- How arithmetic or indexing left its range. -/
inductive Fault where
  | arithmeticOverflow
  | divisionByZero
  | indexOutOfRange
  | capacityExceeded
deriving DecidableEq

/-- Why an operation has no answer. -/
inductive Failure where
  | refused (error : Error)
  | fault (fault : Fault)
deriving DecidableEq

/-- An answer, or why there is none. -/
abbrev Result (α : Type) := Except Failure α

end VirtualGic
