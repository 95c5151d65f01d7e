/-
# Operation — everything that can be asked of a distributor

Guests, the trap layer, the physical interface and the domain's administration all act
on a distributor through the operations listed here. `Machine.perform` carries out one,
and `Machine.run` a whole history, so that what every history keeps is an induction over
a list of operations.
-/
import VirtualGic.Access.Write
import VirtualGic.Lifecycle

namespace VirtualGic

set_option autoImplicit false

/-- What can be asked of a distributor. -/
inductive Operation where
  /-- Make the state of a VCPU. -/
  | initVcpu (v : Nat)
  /-- Release the state of a VCPU. -/
  | freeVcpu (v : Nat)
  /-- Read a register by its offset into the frame. -/
  | read (v offset : Nat) (width : Width) (signed : Bool)
  /-- Write a register by its offset into the frame. -/
  | write (v offset : Nat) (width : Width) (value : Word)
  /-- Read a register by its guest-physical address. -/
  | readAt (v : Nat) (address : BitVec 64) (width : Width) (signed : Bool)
  /-- Write a register by its guest-physical address. -/
  | writeAt (v : Nat) (address : BitVec 64) (width : Width) (value : Word)
  /-- Raise a line on a VCPU. -/
  | inject (v line : Nat)
  /-- Raise a shared line on a VCPU it targets. -/
  | injectSpi (line : Nat)
  /-- Send a software interrupt. -/
  | dispatchSoftware (v : Nat) (value : Word)
  /-- Enable lines of a rank. -/
  | enableLines (v : Nat) (mask : Word) (rank : Nat)
  /-- Disable lines of a rank. -/
  | disableLines (v : Nat) (mask : Word) (rank : Nat)
  /-- Drop everything inflight on a VCPU. -/
  | clearPending (v : Nat)
  /-- Record that a line entered or left a list register. -/
  | setVisible (v line : Nat) (visible : Bool)
  /-- Record that a line was acknowledged or deactivated. -/
  | setActive (v line : Nat) (active : Bool)
  /-- Complete a line. -/
  | retire (v line : Nat)
  /-- Back a line by a physical interrupt. -/
  | routePhysical (v line irq : Nat)
  /-- Make a line purely virtual. -/
  | unroutePhysical (v line : Nat)
  /-- Ask for the lines inflight on a VCPU. -/
  | inflightLines (v : Nat)
  /-- Ask for the flags of a line. -/
  | pendingStatus (v line : Nat)
deriving DecidableEq

/-- What a distributor answers. -/
inductive Answer where
  /-- The operation is done. -/
  | done
  /-- The word that was read. -/
  | word (value : Word)
  /-- Whether something holds. -/
  | truth (value : Bool)
  /-- A physical interrupt, if there is one. -/
  | interrupt (irq : Option Nat)
  /-- Lines in delivery order. -/
  | lines (lines : List Nat)
  /-- The flags of a line. -/
  | status (status : Status)
deriving DecidableEq

namespace Machine

variable {σ : Type}

/-- An outcome with its value turned into an answer. -/
def answer {α : Type} (f : α → Answer) (outcome : Result α × Machine σ) :
    Result Answer × Machine σ :=
  (outcome.1.map f, outcome.2)

/-- An outcome that carries no value. -/
def acknowledge (outcome : Result Unit × Machine σ) : Result Answer × Machine σ :=
  answer (fun _ => .done) outcome

variable [Host σ]

/-- Carry out one operation. -/
def perform (m : Machine σ) : Operation → Result Answer × Machine σ
  | .initVcpu v => acknowledge (m.initVcpu v)
  | .freeVcpu v => acknowledge (m.freeVcpu v)
  | .read v offset width signed => answer .word (m.read v offset width signed)
  | .write v offset width value => acknowledge (m.write v offset width value)
  | .readAt v address width signed => answer .word (m.readAt v address width signed)
  | .writeAt v address width value => acknowledge (m.writeAt v address width value)
  | .inject v line => acknowledge (m.inject v line)
  | .injectSpi line => acknowledge (m.injectSpi line)
  | .dispatchSoftware v value => acknowledge (m.dispatchSoftware v value)
  | .enableLines v mask rank => acknowledge (m.enableLines v mask rank)
  | .disableLines v mask rank => acknowledge (m.disableLines v mask rank)
  | .clearPending v => acknowledge (m.clearPending v)
  | .setVisible v line visible => acknowledge (m.setVisible v line visible)
  | .setActive v line active => acknowledge (m.setActive v line active)
  | .retire v line => answer .truth (m.retire v line)
  | .routePhysical v line irq => acknowledge (m.routePhysical v line irq)
  | .unroutePhysical v line => answer .interrupt (m.unroutePhysical v line)
  | .inflightLines v => answer .lines ((m.dist.inflightLines v).mapError .refused, m)
  | .pendingStatus v line => answer .status ((m.dist.statusOf v line).mapError .refused, m)

/-- Carry out a history of operations, whatever each of them answers. -/
def run (m : Machine σ) (operations : List Operation) : Machine σ :=
  operations.foldl (fun m operation => (m.perform operation).2) m

theorem run_nil (m : Machine σ) : m.run [] = m := rfl

theorem run_cons (m : Machine σ) (operation : Operation) (operations : List Operation) :
    m.run (operation :: operations) = (m.perform operation).2.run operations := rfl

theorem run_append (m : Machine σ) (first second : List Operation) :
    m.run (first ++ second) = (m.run first).run second := by
  simp [run]

/-- What every operation keeps, every history keeps. -/
theorem run_induction {P : Machine σ → Prop}
    (step : ∀ (m : Machine σ) (operation : Operation), P m → P (m.perform operation).2)
    {m : Machine σ} (initial : P m) (operations : List Operation) : P (m.run operations) := by
  induction operations generalizing m with
  | nil => exact initial
  | cons operation operations ih => exact ih (step m operation initial)

end Machine

end VirtualGic
