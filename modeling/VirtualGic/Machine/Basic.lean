/-
# Machine.Basic — a distributor among its collaborators

A distributor works between a physical interrupt controller, to which it passes what
VCPUs are to see, and a host, which schedules the VCPUs. Both are reached by calls
that give nothing back (`Call`), and the host is asked four questions. Nothing is
assumed of the answers: a `Host` is any state machine that may answer each question
as it likes, at any time, and may react to every call.

A `Machine` is the distributor, the host as it is now, and what has happened: the
calls and log notes in the order they were made. Everything a machine does is made of
four questions, `call`, `note` and `modify`; a question changes neither the
distributor nor the trace.
-/
import VirtualGic.Machine.Note
import VirtualGic.State.Distributor

namespace VirtualGic

set_option autoImplicit false

/-- A call on the physical interrupt controller or the host. -/
inductive Call where
  /-- Make a line visible to a VCPU at a priority, or queue it until there is room. -/
  | raise (v line : Nat) (priority : Byte)
  /-- Latch again a line that is inflight on a VCPU. -/
  | raiseInflight (v line : Nat)
  /-- Drop a line from every delivery queue of a VCPU. -/
  | remove (v line : Nat)
  /-- Drop everything queued for a VCPU. -/
  | clear (v : Nat)
  /-- Unmask a physical interrupt. -/
  | enablePhysical (irq : Nat)
  /-- Mask a physical interrupt. -/
  | disablePhysical (irq : Nat)
  /-- Wake a VCPU if it is blocked. -/
  | unblock (v : Nat)
  /-- Make a physical processor look again at the interrupts of what it runs. -/
  | check (cpu : Nat)
  /-- Stop the domain for what its guest did. -/
  | crash
deriving DecidableEq

namespace Call

/-- The calls that wake a VCPU or a processor. -/
def isWake : Call → Bool
  | unblock .. | check .. => true
  | _ => false

/-- The calls on the physical interrupt controller. -/
def isPhysical : Call → Bool
  | raise .. | raiseInflight .. | remove .. | clear .. | enablePhysical .. | disablePhysical .. =>
      true
  | _ => false

end Call

/-- What happened: a call or a log note. -/
inductive Event where
  | call (made : Call)
  | note (written : Note)
deriving DecidableEq

/-- The call that an event is. -/
def Event.call? : Event → Option Call
  | .call made => some made
  | .note _ => none

/-- The scheduler of the domain, as a state machine over `σ`. -/
class Host (σ : Type) where
  /-- Whether a VCPU is up. -/
  online : σ → Nat → Bool × σ
  /-- The physical processor that a VCPU runs on. -/
  running : σ → Nat → Option Nat × σ
  /-- The physical processor that asks. -/
  currentCpu : σ → Nat × σ
  /-- Whether the event-channel upcall of a VCPU is latched. -/
  upcallPending : σ → Nat → Bool × σ
  /-- What a call does to the collaborators. -/
  react : σ → Call → σ

/-- A distributor, its host, and what has happened. -/
structure Machine (σ : Type) where
  /-- The distributor. -/
  dist : Distributor
  /-- The host as it is now. -/
  host : σ
  /-- What has happened, oldest first. -/
  trace : List Event := []

namespace Machine

variable {σ : Type}

/-- The calls that were made, oldest first. -/
def calls (m : Machine σ) : List Call :=
  m.trace.filterMap Event.call?

/-- Change the distributor. -/
def modify (m : Machine σ) (f : Distributor → Distributor) : Machine σ :=
  { m with dist := f m.dist }

/-- Record a note. -/
def note (m : Machine σ) (n : Note) : Machine σ :=
  { m with trace := m.trace ++ [.note n] }

/-! ## What a change or a note leaves alone -/

@[simp] theorem dist_modify (m : Machine σ) (f : Distributor → Distributor) :
    (m.modify f).dist = f m.dist := rfl

@[simp] theorem trace_modify (m : Machine σ) (f : Distributor → Distributor) :
    (m.modify f).trace = m.trace := rfl

@[simp] theorem dist_note (m : Machine σ) (n : Note) : (m.note n).dist = m.dist := rfl

@[simp] theorem calls_note (m : Machine σ) (n : Note) : (m.note n).calls = m.calls := by
  simp [calls, note, Event.call?]

/-! ## Calls and questions -/

variable [Host σ]

/-- Make a call. -/
def call (m : Machine σ) (c : Call) : Machine σ :=
  { m with host := Host.react m.host c, trace := m.trace ++ [.call c] }

/-- Ask whether a VCPU is up. -/
def online (m : Machine σ) (v : Nat) : Bool × Machine σ :=
  let (answer, host) := Host.online m.host v
  (answer, { m with host })

/-- Ask which physical processor a VCPU runs on. -/
def running (m : Machine σ) (v : Nat) : Option Nat × Machine σ :=
  let (answer, host) := Host.running m.host v
  (answer, { m with host })

/-- Ask which physical processor is asking. -/
def currentCpu (m : Machine σ) : Nat × Machine σ :=
  let (answer, host) := Host.currentCpu m.host
  (answer, { m with host })

/-- Ask whether the upcall of a VCPU is latched. -/
def upcallPending (m : Machine σ) (v : Nat) : Bool × Machine σ :=
  let (answer, host) := Host.upcallPending m.host v
  (answer, { m with host })

/-! ## What a call or a question leaves alone -/

@[simp] theorem dist_call (m : Machine σ) (c : Call) : (m.call c).dist = m.dist := rfl

@[simp] theorem calls_call (m : Machine σ) (c : Call) : (m.call c).calls = m.calls ++ [c] := by
  simp [calls, call, Event.call?]

@[simp] theorem dist_online (m : Machine σ) (v : Nat) : (m.online v).2.dist = m.dist := rfl

@[simp] theorem trace_online (m : Machine σ) (v : Nat) : (m.online v).2.trace = m.trace := rfl

@[simp] theorem dist_running (m : Machine σ) (v : Nat) : (m.running v).2.dist = m.dist := rfl

@[simp] theorem trace_running (m : Machine σ) (v : Nat) : (m.running v).2.trace = m.trace := rfl

@[simp] theorem dist_currentCpu (m : Machine σ) : m.currentCpu.2.dist = m.dist := rfl

@[simp] theorem trace_currentCpu (m : Machine σ) : m.currentCpu.2.trace = m.trace := rfl

@[simp] theorem dist_upcallPending (m : Machine σ) (v : Nat) :
    (m.upcallPending v).2.dist = m.dist := rfl

@[simp] theorem trace_upcallPending (m : Machine σ) (v : Nat) :
    (m.upcallPending v).2.trace = m.trace := rfl

end Machine

end VirtualGic
