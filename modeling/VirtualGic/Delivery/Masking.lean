/-
# Delivery.Masking — lines enabled and disabled by the guest

The guest enables and disables lines by a mask over the 32 lines of a rank, and they
are served in ascending order. Enabling a line that is inflight and not shown passes it
to the physical interface; enabling the event-channel line while its upcall is latched
raises it. Disabling a line takes it off the list it is on. Either way the physical
interrupt behind the line follows.
-/
import VirtualGic.Delivery.Injection

namespace VirtualGic

set_option autoImplicit false

/-- The lines that `mask` names in rank `rank`. Their numbers are computed in 64 bits,
where overflow is a fault, and cut down to 32. -/
def maskedLines (rank : Nat) (mask : Word) : Except Fault (List Nat) :=
  if mask ≠ 0 ∧ range64 ≤ rank * linesPerRank then .error .arithmeticOverflow
  else .ok ((SetBits.mk mask).toList.map fun bit => (rank * linesPerRank + bit) % range32)

namespace Machine

variable {σ : Type} [Host σ]

/-- Pass an inflight line that is in no list register to the physical interface. -/
def raiseHidden (m : Machine σ) (ref : LineRef) : Machine σ :=
  let line := m.dist.descriptor ref
  match line.owner with
  | none => m
  | some owner =>
      if (m.dist.vcpu? owner).isSome && !line.status.visible then
        m.call (.raise owner line.line line.priority)
      else m

/-- Raise the event-channel line on `v` if its upcall is latched, and show any other
line that is inflight. -/
def showEnabled (m : Machine σ) (v line : Nat) (ref : LineRef) : Machine σ :=
  if line = m.dist.config.upcallLine then
    let asked := m.upcallPending v
    if asked.1 && !(asked.2.dist.descriptor ref).isInflight then asked.2.deliver [] v ref
    else asked.2.raiseHidden ref
  else m.raiseHidden ref

/-- Unmask the physical interrupt behind a line, if there is one. -/
def enablePhysical (m : Machine σ) (ref : LineRef) : Machine σ :=
  match (m.dist.descriptor ref).phys with
  | none => m
  | some irq => m.call (.enablePhysical irq)

/-- Mask the physical interrupt behind a line, if there is one. -/
def disablePhysical (m : Machine σ) (ref : LineRef) : Machine σ :=
  match (m.dist.descriptor ref).phys with
  | none => m
  | some irq => m.call (.disablePhysical irq)

/-- The guest of `v` enables a line; a line without a descriptor is passed over. -/
def enableLine (v : Nat) (m : Machine σ) (line : Nat) : Machine σ :=
  match m.dist.lineRef? v line with
  | none => m
  | some ref =>
      let enabled := m.modify (·.updateLine ref (Descriptor.setEnabled true))
      (enabled.showEnabled v line ref).enablePhysical ref

/-- Take a line off the list of `holder` if it is on it. -/
def unlink (m : Machine σ) (holder : Nat) (ref : LineRef) (line : Nat) : Machine σ :=
  if (m.dist.descriptor ref).owner = some holder then
    m.modify fun d =>
      (d.updateLine ref fun p => (p.release holder).settle).updateInflight holder (·.erase line)
  else m

/-- Take a line off the list it is on, and out of the queues of its holder. -/
def dequeue (m : Machine σ) (changes : List (Change σ)) (v : Nat) (ref : LineRef) (line : Nat) :
    Machine σ :=
  match m.lockHolder v ref changes with
  | (none, m) => m
  | (some holder, m) => (m.unlink holder ref line).call (.remove holder line)

/-- The guest of `v` disables a line while other VCPUs make the changes given for it; a
line without a descriptor is passed over. -/
def disableLine (changes : Nat → List (Change σ)) (v : Nat) (m : Machine σ) (line : Nat) :
    Machine σ :=
  match m.dist.lineRef? v line with
  | none => m
  | some ref =>
      let disabled := m.modify (·.updateLine ref (Descriptor.setEnabled false))
      (disabled.dequeue (changes line) v ref line).disablePhysical ref

/-- Enable the lines of a mask for a VCPU that has state. -/
def enableMask (v : Nat) (mask : Word) (rank : Nat) (m : Machine σ) : Result Unit × Machine σ :=
  match maskedLines rank mask with
  | .error fault => (.error (.fault fault), m)
  | .ok lines => (.ok (), lines.foldl (enableLine v) m)

/-- Disable the lines of a mask for a VCPU that has state. -/
def disableMask (changes : Nat → List (Change σ)) (v : Nat) (mask : Word) (rank : Nat)
    (m : Machine σ) : Result Unit × Machine σ :=
  match maskedLines rank mask with
  | .error fault => (.error (.fault fault), m)
  | .ok lines => (.ok (), lines.foldl (disableLine changes v) m)

/-- Enable the lines of a mask as VCPU `v` sees them. -/
def enableLines (v : Nat) (mask : Word) (rank : Nat) (m : Machine σ) : Result Unit × Machine σ :=
  match m.dist.requireVcpu v with
  | .error error => (.error (.refused error), m)
  | .ok _ => m.enableMask v mask rank

/-- Disable the lines of a mask as VCPU `v` sees them while other VCPUs make the changes
given for each line. -/
def disableLinesAmid (changes : Nat → List (Change σ)) (v : Nat) (mask : Word) (rank : Nat)
    (m : Machine σ) : Result Unit × Machine σ :=
  match m.dist.requireVcpu v with
  | .error error => (.error (.refused error), m)
  | .ok _ => m.disableMask changes v mask rank

/-- Disable the lines of a mask as VCPU `v` sees them. -/
def disableLines (v : Nat) (mask : Word) (rank : Nat) (m : Machine σ) :
    Result Unit × Machine σ :=
  m.disableLinesAmid (fun _ => []) v mask rank

end Machine

end VirtualGic
