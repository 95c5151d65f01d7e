/-
# State.Distributor — the whole state of a domain's distributor

The distributor owns the shared ranks and descriptors and one slot per VCPU. Lines
and ranks are addressed as a VCPU sees them: lines below 32 and rank 0 are its own,
all others are shared (`lineRef?`, `rank?`). A `LineRef` is the identity of a
descriptor; two VCPUs have one reference for a shared line and two for a private one.

Changes go through `updateVcpu`, `updateRank`, `updateLine` and `updateInflight`, and
the lemmas beside them say what each leaves alone.
-/
import VirtualGic.State.Vcpu

namespace VirtualGic

set_option autoImplicit false

/-- Which descriptor is meant. -/
inductive LineRef where
  /-- A private line of a VCPU. -/
  | banked (vcpu : Nat) (line : Fin 32)
  /-- A shared line, counted from the first one. -/
  | shared (index : Nat)
deriving DecidableEq

/-- The number of the line. -/
def LineRef.number : LineRef → Nat
  | banked _ line => line
  | shared index => linesPerRank + index

/-- The state of a domain's distributor. -/
structure Distributor where
  /-- The settings it was made with. -/
  config : Config
  /-- Whether the guest has enabled the distributor. -/
  enabled : Bool
  /-- The ranks of the shared lines. -/
  sharedRanks : Array Rank
  /-- The descriptors of the shared lines. -/
  sharedLines : Array Descriptor
  /-- The VCPUs, nothing where a VCPU has no state. -/
  vcpus : Array (Option Vcpu)
deriving DecidableEq

namespace Distributor

/-- A distributor of a domain without VCPU state, nothing enabled or raised. -/
def create (config : Config) : Distributor where
  config
  enabled := false
  sharedRanks := Array.replicate config.sharedRanks Rank.zero
  sharedLines := Array.ofFn fun index : Fin config.spis => Descriptor.idle (linesPerRank + index)
  vcpus := Array.replicate config.vcpus none

/-! ## Looking at the state -/

/-- The state of VCPU `v`, if it has one. -/
def vcpu? (d : Distributor) (v : Nat) : Option Vcpu :=
  d.vcpus[v]?.join

/-- The VCPUs that have state, in ascending order. -/
def present (d : Distributor) : List Nat :=
  (List.range d.vcpus.size).filter fun v => (d.vcpu? v).isSome

/-- The rank `index` as VCPU `v` sees it. -/
def rank? (d : Distributor) (v : Nat) : Nat → Option Rank
  | 0 => (d.vcpu? v).map (·.rank)
  | index + 1 => d.sharedRanks[index]?

/-- The reference of `line` as VCPU `v` sees it, if the line has a descriptor. -/
def lineRef? (d : Distributor) (v line : Nat) : Option LineRef :=
  if h : line < 32 then (d.vcpu? v).map fun _ => .banked v ⟨line, h⟩
  else if line - linesPerRank < d.sharedLines.size then some (.shared (line - linesPerRank))
  else none

/-- The descriptor with the given reference, if there is one. -/
def descriptor? (d : Distributor) : LineRef → Option Descriptor
  | .banked v line => (d.vcpu? v).map fun vcpu => vcpu.lines[line]
  | .shared index => d.sharedLines[index]?

/-- The descriptor with the given reference, idle where there is none. -/
def descriptor (d : Distributor) (ref : LineRef) : Descriptor :=
  (d.descriptor? ref).getD (Descriptor.idle ref.number)

/-- The descriptor of `line` as VCPU `v` sees it. -/
def line? (d : Distributor) (v line : Nat) : Option Descriptor :=
  (d.lineRef? v line).bind d.descriptor?

/-- The list of VCPU `v`. -/
def inflight? (d : Distributor) (v : Nat) : Option Inflight :=
  (d.vcpu? v).map (·.inflight)

/-- The priority of `line` in the registers as VCPU `v` sees them, 0 in an absent
rank. -/
def priorityOf (d : Distributor) (v line : Nat) : Byte :=
  ((d.rank? v (rankOfLine line)).bind (·.priority? (line % linesPerRank))).getD 0

/-- The state of VCPU `v`, or the refusal of an unknown one. -/
def requireVcpu (d : Distributor) (v : Nat) : Except Error Vcpu :=
  match d.vcpu? v with
  | none => .error (.invalidVcpu v)
  | some vcpu => .ok vcpu

/-- The reference of `line` as VCPU `v` sees it, or the refusal of an unknown VCPU or
line. -/
def resolve (d : Distributor) (v line : Nat) : Except Error LineRef :=
  match d.vcpu? v with
  | none => .error (.invalidVcpu v)
  | some _ =>
      match d.lineRef? v line with
      | none => .error (.invalidLine line)
      | some ref => .ok ref

/-- The state in one line. -/
def describe (d : Distributor) : String :=
  "Vgic \x7b " ++
    s!"config: {d.config.describe}, enabled: {d.enabled}, " ++
    s!"shared_ranks: {d.sharedRanks.size}, vcpus: {d.present.length}" ++ " \x7d"

/-! ## Changing the state -/

/-- Change the state of VCPU `v`, if it has one. -/
def updateVcpu (d : Distributor) (v : Nat) (f : Vcpu → Vcpu) : Distributor :=
  { d with vcpus := d.vcpus.modify v (Option.map f) }

/-- Change rank `index` as VCPU `v` sees it, if it is there. -/
def updateRank (d : Distributor) (v : Nat) : Nat → (Rank → Rank) → Distributor
  | 0, f => d.updateVcpu v fun vcpu => { vcpu with rank := f vcpu.rank }
  | index + 1, f => { d with sharedRanks := d.sharedRanks.modify index f }

/-- Change the descriptor with the given reference, if it is there. -/
def updateLine (d : Distributor) (ref : LineRef) (f : Descriptor → Descriptor) : Distributor :=
  match ref with
  | .banked v line =>
      d.updateVcpu v fun vcpu => { vcpu with lines := vcpu.lines.set line (f vcpu.lines[line]) }
  | .shared index => { d with sharedLines := d.sharedLines.modify index f }

/-- Change the inflight list of VCPU `v`, if it has state. -/
def updateInflight (d : Distributor) (v : Nat) (f : Inflight → Inflight) : Distributor :=
  d.updateVcpu v fun vcpu => { vcpu with inflight := f vcpu.inflight }

/-- Give VCPU `v` a state, or take it away. -/
def setVcpu (d : Distributor) (v : Nat) (vcpu : Option Vcpu) : Distributor :=
  { d with vcpus := d.vcpus.setIfInBounds v vcpu }

/-! ## What a change leaves alone -/

theorem vcpu?_updateVcpu (d : Distributor) (v w : Nat) (f : Vcpu → Vcpu) :
    (d.updateVcpu v f).vcpu? w = if v = w then (d.vcpu? w).map f else d.vcpu? w := by
  simp only [updateVcpu, vcpu?, Array.getElem?_modify]
  split
  · cases d.vcpus[w]? <;> rfl
  · rfl

theorem descriptor?_updateLine_self (d : Distributor) (ref : LineRef)
    (f : Descriptor → Descriptor) :
    (d.updateLine ref f).descriptor? ref = (d.descriptor? ref).map f := by
  cases ref with
  | banked v line =>
      simp only [updateLine, descriptor?, vcpu?_updateVcpu, if_pos]
      cases d.vcpu? v <;> simp
  | shared index => simp [updateLine, descriptor?, Array.getElem?_modify]

theorem descriptor?_updateLine_ne (d : Distributor) {ref other : LineRef} (ne : ref ≠ other)
    (f : Descriptor → Descriptor) :
    (d.updateLine ref f).descriptor? other = d.descriptor? other := by
  cases ref with
  | banked v line =>
      cases other with
      | banked w line' =>
          simp only [updateLine, descriptor?, vcpu?_updateVcpu]
          split
          · rename_i same
            subst same
            have ne' : line ≠ line' := fun same => ne (by rw [same])
            have : (line : Nat) ≠ line' := fun same => ne' (Fin.ext same)
            cases d.vcpu? v <;> simp [Vector.getElem_set_ne, this]
          · rfl
      | shared index => simp [updateLine, descriptor?, updateVcpu]
  | shared index =>
      cases other with
      | banked w line => simp [updateLine, descriptor?, vcpu?]
      | shared index' =>
          have : index ≠ index' := fun same => ne (by rw [same])
          simp [updateLine, descriptor?, Array.getElem?_modify, this]

theorem inflight?_updateLine (d : Distributor) (ref : LineRef) (f : Descriptor → Descriptor)
    (v : Nat) : (d.updateLine ref f).inflight? v = d.inflight? v := by
  cases ref with
  | banked w line =>
      simp only [updateLine, inflight?, vcpu?_updateVcpu]
      split
      · cases d.vcpu? v <;> rfl
      · rfl
  | shared index => rfl

theorem descriptor?_updateInflight (d : Distributor) (v : Nat) (f : Inflight → Inflight)
    (ref : LineRef) : (d.updateInflight v f).descriptor? ref = d.descriptor? ref := by
  cases ref with
  | banked w line =>
      simp only [updateInflight, descriptor?, vcpu?_updateVcpu]
      split
      · cases d.vcpu? w <;> rfl
      · rfl
  | shared index => rfl

theorem inflight?_updateInflight (d : Distributor) (v w : Nat) (f : Inflight → Inflight) :
    (d.updateInflight v f).inflight? w =
      if v = w then (d.inflight? w).map f else d.inflight? w := by
  simp only [updateInflight, inflight?, vcpu?_updateVcpu]
  split
  · cases d.vcpu? w <;> rfl
  · rfl

end Distributor

end VirtualGic
