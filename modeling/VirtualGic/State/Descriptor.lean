/-
# State.Descriptor — the delivery state of one line

Every line has a descriptor that lives as long as its owner: four status flags, the
priority taken when the line was last queued, the physical interrupt behind it and
the VCPU whose inflight list holds it.
-/
import VirtualGic.Bits.Lane

namespace VirtualGic

set_option autoImplicit false

/-- The delivery flags of a line. -/
structure Status where
  /-- The guest has enabled the line. -/
  enabled : Bool := false
  /-- The line is raised and waits for delivery, or was raised again while inflight. -/
  queued : Bool := false
  /-- The line is in a list register. -/
  visible : Bool := false
  /-- The guest has acknowledged the line and not completed it. -/
  active : Bool := false
deriving DecidableEq

namespace Status

/-- The flags as a word: enabled 1, queued 2, visible 4, active 8. -/
def toWord (status : Status) : Word :=
  (if status.enabled then 1 else 0) ||| (if status.queued then 2 else 0) |||
    (if status.visible then 4 else 0) ||| (if status.active then 8 else 0)

/-- The flags that a word names; bits that name no flag are dropped. -/
def ofWord (word : Word) : Status where
  enabled := word.getLsbD 0
  queued := word.getLsbD 1
  visible := word.getLsbD 2
  active := word.getLsbD 3

/-- The flags with those of `word` set. -/
def set (status : Status) (word : Word) : Status :=
  ofWord (status.toWord ||| word)

/-- The flags with those of `word` cleared. -/
def clear (status : Status) (word : Word) : Status :=
  ofWord (status.toWord &&& ~~~word)

/-- Whether every bit of `word` is the bit of a flag that is set. -/
def contains (status : Status) (word : Word) : Bool :=
  status.toWord &&& word == word

/-- The flags of a line that is not inflight: only whether it is enabled stays. -/
def settled (status : Status) : Status :=
  { enabled := status.enabled }

theorem ofWord_toWord (status : Status) : ofWord status.toWord = status := by
  obtain ⟨e, q, v, a⟩ := status
  cases e <;> cases q <;> cases v <;> cases a <;> rfl

end Status

/-- The delivery state of one line. -/
structure Descriptor where
  /-- The number of the line. -/
  line : Nat
  /-- The delivery flags. -/
  status : Status := {}
  /-- The priority the line had when it was last queued. -/
  priority : Byte := 0
  /-- The physical interrupt behind the line. -/
  phys : Option Nat := none
  /-- The VCPU whose inflight list holds the line. -/
  owner : Option Nat := none
deriving DecidableEq

namespace Descriptor

/-- A line that is disabled, not inflight and purely virtual. -/
def idle (line : Nat) : Descriptor :=
  { line }

/-- Whether some inflight list holds the line. -/
def isInflight (descriptor : Descriptor) : Bool :=
  descriptor.owner.isSome

/-- The number that stands for no physical interrupt. -/
def noInterrupt : Nat := 0xffffffff

/-- The line backed by a physical interrupt, or by none. -/
def route (irq : Nat) (descriptor : Descriptor) : Descriptor :=
  { descriptor with phys := if irq = noInterrupt then none else some irq }

/-- The line without a physical interrupt. -/
def unroute (descriptor : Descriptor) : Descriptor :=
  { descriptor with phys := none }

/-- The line enabled or disabled by the guest. -/
def setEnabled (enabled : Bool) (descriptor : Descriptor) : Descriptor :=
  { descriptor with status := { descriptor.status with enabled } }

/-- The line raised. -/
def setQueued (descriptor : Descriptor) : Descriptor :=
  { descriptor with status := { descriptor.status with queued := true } }

/-- The line put into a list register, which uses up that it was raised, or taken out
of it. -/
def setVisible (visible : Bool) (descriptor : Descriptor) : Descriptor :=
  { descriptor with
    status := { descriptor.status with
      visible, queued := if visible then false else descriptor.status.queued } }

/-- The line acknowledged or deactivated by the guest. -/
def setActive (active : Bool) (descriptor : Descriptor) : Descriptor :=
  { descriptor with status := { descriptor.status with active } }

/-- The line raised for `vcpu` with the priority it has now. -/
def claim (vcpu : Nat) (priority : Byte) (descriptor : Descriptor) : Descriptor :=
  { descriptor with
    owner := some vcpu, priority, status := { descriptor.status with queued := true } }

/-- The line completed: it has left its list register. -/
def complete (descriptor : Descriptor) : Descriptor :=
  { descriptor with status := { descriptor.status with visible := false, active := false } }

/-- The line given back by `vcpu`; one that another VCPU holds stays with it. -/
def release (vcpu : Nat) (descriptor : Descriptor) : Descriptor :=
  if descriptor.owner = some vcpu then { descriptor with owner := none } else descriptor

/-- The line without delivery state, but for its owner. -/
def settle (descriptor : Descriptor) : Descriptor :=
  { descriptor with status := descriptor.status.settled }

/-- The line with the flags of `word` set from outside the delivery of lines. -/
def mark (word : Word) (descriptor : Descriptor) : Descriptor :=
  { descriptor with status := descriptor.status.set word }

/-- The line with the flags of `word` cleared from outside the delivery of lines. -/
def unmark (word : Word) (descriptor : Descriptor) : Descriptor :=
  { descriptor with status := descriptor.status.clear word }

/-- Whether nothing about the line differs from a new one. -/
def isIdle (descriptor : Descriptor) : Bool :=
  descriptor == idle descriptor.line

end Descriptor

end VirtualGic
