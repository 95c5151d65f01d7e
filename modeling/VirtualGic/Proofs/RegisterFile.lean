/-
# Proofs.RegisterFile — the frame as plain memory

`RegisterFile` is what a guest may take the frame for: a control bit, an enable bitmap, two
arrays of bytes, an array of words, and nothing else. Cells of private lines belong to a
VCPU, all others are shared (`bankOf`). `load` and `write` go by the offset alone, through
the ranges of the frame, and know nothing of groups, ranks, descriptors or lists.

`load_of_accepts` and `write_of_accepts` compare this with the look-up of groups: an offset
means the same by its range and by its group, and `accepts_of_load` that what has a value
here is accepted there.
-/
import VirtualGic.Operation
import VirtualGic.Proofs.Access
import Mathlib.Tactic.SplitIfs

namespace VirtualGic

set_option autoImplicit false

/-! ## Cells -/

/-- The VCPU whose own a rank is when `v` addresses it, nobody for a shared one. -/
def bankOf (v rank : Nat) : Option Nat :=
  if rank = 0 then some v else none

/-- Cells by their owner, nobody for shared ones, and number. -/
abbrev Cells (α : Type) : Type := Option Nat → Nat → α

namespace Cells

variable {α : Type}

/-- The cells with one of them replaced. -/
def put (cells : Cells α) (owner : Option Nat) (number : Nat) (x : α) : Cells α :=
  fun owner' number' => if owner' = owner ∧ number' = number then x else cells owner' number'

/-- The cells with all of one owner replaced. -/
def fill (cells : Cells α) (owner : Option Nat) (x : α) : Cells α :=
  fun owner' number => if owner' = owner then x else cells owner' number

/-- Store the byte of `line` as VCPU `v` sees it. -/
def putByte (cells : Cells Byte) (v line : Nat) (byte : Byte) : Cells Byte :=
  cells.put (bankOf v (rankOfLine line)) line byte

/-- VCPU `v` writes a byte at `position`, or all four bytes of the aligned word there. -/
def store (cells : Cells Byte) (v position : Nat) (width : Width) (value : Word) : Cells Byte :=
  match width with
  | .byte => cells.putByte v position (value.setWidth 8)
  | _ =>
      (List.range 4).foldl
        (fun cells lane => cells.putByte v (4 * (position / 4) + lane) (Word.lane value lane)) cells

/-- The four bytes of an aligned word, the first of them lowest. -/
def wordOf (cells : Cells Byte) (owner : Option Nat) (word : Nat) : Word :=
  cells owner (4 * word + 3) ++ cells owner (4 * word + 2) ++ cells owner (4 * word + 1) ++
    cells owner (4 * word)

/-- VCPU `v` reads the byte at `position`, widened, or all four bytes of the aligned word
there. -/
def load (cells : Cells Byte) (v position : Nat) (width : Width) (signed : Bool) : Word :=
  let owner := bankOf v (rankOfLine position)
  match width with
  | .byte =>
      if signed then (cells owner position).signExtend 32 else (cells owner position).setWidth 32
  | _ => cells.wordOf owner (position / 4)

end Cells

/-! ## The register file -/

/-- The registers of a frame, by their cells. -/
structure RegisterFile where
  /-- The VCPUs that have state. -/
  up : Nat → Bool := fun _ => false
  /-- The control bit. -/
  control : Bool := false
  /-- The enable bitmap, by rank. -/
  enable : Cells Word := fun _ _ => 0
  /-- The priorities, by line. -/
  priority : Cells Byte := fun _ _ => 0
  /-- The target masks, by line. -/
  targets : Cells Byte := fun _ _ => 0
  /-- The trigger bits, two words in a rank. -/
  trigger : Cells Word := fun _ _ => 0

namespace RegisterFile

/-- Change the enable bitmap of a rank as VCPU `v` sees it. -/
def changeEnable (file : RegisterFile) (v rank : Nat) (f : Word → Word) : RegisterFile :=
  { file with
    enable := file.enable.put (bankOf v rank) rank (f (file.enable (bankOf v rank) rank)) }

/-- VCPU `v` writes at `offset`. Cells of ranks that do not exist can be written; they are
never read. -/
def write (file : RegisterFile) (v offset : Nat) (width : Width) (value : Word) : RegisterFile :=
  if offset < 0x004 then { file with control := value.getLsbD 0 }
  else if 0x100 ≤ offset ∧ offset < 0x180 then
    file.changeEnable v ((offset - 0x100) / 4) (· ||| value)
  else if 0x180 ≤ offset ∧ offset < 0x200 then
    file.changeEnable v ((offset - 0x180) / 4) (· &&& ~~~value)
  else if 0x400 ≤ offset ∧ offset < 0x7fc then
    { file with priority := file.priority.store v (offset - 0x400) width value }
  else if 0x808 ≤ offset ∧ offset < 0xbfc then
    { file with targets := file.targets.store v (offset - 0x800) width value }
  else if 0xc08 ≤ offset ∧ offset < 0xd00 then
    let word := (offset - 0xc00) / 4
    { file with trigger := file.trigger.put (bankOf v (word / 2)) word value }
  else file

/-- A new VCPU has its own cells at zero, and is the one target of its lines. -/
def raise (file : RegisterFile) (v : Nat) : RegisterFile where
  up w := w = v || file.up w
  control := file.control
  enable := file.enable.fill (some v) 0
  priority := file.priority.fill (some v) 0
  targets := file.targets.fill (some v) (1 <<< v)
  trigger := file.trigger.fill (some v) 0

/-- A VCPU that is released. -/
def drop (file : RegisterFile) (v : Nat) : RegisterFile :=
  { file with up := fun w => w ≠ v && file.up w }

/-- What an accepted operation does to the registers. -/
def follow (config : Config) (file : RegisterFile) : Operation → RegisterFile
  | .initVcpu v => file.raise v
  | .freeVcpu v => file.drop v
  | .write v offset width value => file.write v offset width value
  | .writeAt v address width value => file.write v (address - config.base).toNat width value
  | _ => file

/-- What VCPU `v` reads in a rank, zero where the rank does not exist. -/
def inRank (config : Config) (rank : Nat) (value : Word) : Word :=
  if rank ≤ config.sharedRanks then value else 0

/-- VCPU `v` reads at `offset`, where there is something to read. -/
def load (config : Config) (file : RegisterFile) (v offset : Nat) (width : Width)
    (signed : Bool) : Option Word :=
  match width with
  | .word =>
      if offset < 0x004 then some (if file.control then 1 else 0)
      else if offset < 0x008 then
        some (BitVec.ofNat 32 (32 * (config.vcpus - 1) + config.sharedRanks))
      else if offset < 0x00c then some 0x43b
      else if offset < 0x100 then some 0
      else if offset < 0x180 then
        let rank := (offset - 0x100) / 4
        some (inRank config rank (file.enable (bankOf v rank) rank))
      else if offset < 0x200 then
        let rank := (offset - 0x180) / 4
        some (inRank config rank (file.enable (bankOf v rank) rank))
      else if offset < 0x400 then some 0
      else if offset < 0x7fc then
        some (inRank config (rankOfLine (offset - 0x400))
          (file.priority.load v (offset - 0x400) width signed))
      else if offset < 0x800 then some 0
      else if offset < 0xbfc then
        some (inRank config (rankOfLine (offset - 0x800))
          (file.targets.load v (offset - 0x800) width signed))
      else if offset < 0xc00 then some 0
      else if offset < 0xd00 then
        let word := (offset - 0xc00) / 4
        some (inRank config (word / 2) (file.trigger (bankOf v (word / 2)) word))
      else if offset < 0xe00 then none
      else if offset < 0xf00 then some 0
      else if offset < 0xf04 then some 0xdeadbeef
      else if offset < 0xfe8 then some 0
      else if offset < 0xfec then none
      else if offset < 0x1000 then some 0
      else none
  | .byte =>
      if 0x200 ≤ offset ∧ offset < 0x300 then some 0
      else if 0x400 ≤ offset ∧ offset < 0x7fc then
        some (inRank config (rankOfLine (offset - 0x400))
          (file.priority.load v (offset - 0x400) width signed))
      else if 0x800 ≤ offset ∧ offset < 0xbfc then
        some (inRank config (rankOfLine (offset - 0x800))
          (file.targets.load v (offset - 0x800) width signed))
      else if 0xf10 ≤ offset ∧ offset < 0xf30 then some 0
      else none
  | _ => none

/-- The word that an operation reads, if it reads one. -/
def answer? (config : Config) (file : RegisterFile) : Operation → Option Word
  | .read v offset width signed =>
      if file.up v then file.load config v offset width signed else none
  | .readAt v address width signed =>
      if config.frameContains address && file.up v then
        file.load config v (address - config.base).toNat width signed
      else none
  | _ => none

/-! ## By groups -/

/-- What a write to a register of the frame does to the file. -/
def writeRegister (file : RegisterFile) (v : Nat) (access : Access) (value : Word) :
    Register → RegisterFile
  | .control => { file with control := value.getLsbD 0 }
  | .setEnable => file.changeEnable v (access.position / 4) (· ||| value)
  | .clearEnable => file.changeEnable v (access.position / 4) (· &&& ~~~value)
  | .priority => { file with priority := file.priority.store v access.position access.width value }
  | .targets =>
      if access.offset < Frame.firstWritableTarget then file
      else { file with targets := file.targets.store v access.position access.width value }
  | .trigger =>
      if access.offset < Frame.firstWritableTrigger then file
      else
        let word := access.position / 4
        { file with trigger := file.trigger.put (bankOf v (word / 2)) word value }
  | _ => file

/-- What a read of a register of the frame gives by the file. -/
def loadRegister (config : Config) (file : RegisterFile) (v : Nat) (access : Access) :
    Register → Option Word
  | .control => some (if file.control then 1 else 0)
  | .typeRegister => some (BitVec.ofNat 32 (32 * (config.vcpus - 1) + config.sharedRanks))
  | .implementer => some 0x43b
  | .setEnable | .clearEnable =>
      let rank := access.position / 4
      some (inRank config rank (file.enable (bankOf v rank) rank))
  | .priority =>
      some (inRank config (rankOfLine access.position)
        (file.priority.load v access.position access.width access.signed))
  | .targets =>
      some (inRank config (rankOfLine access.position)
        (file.targets.load v access.position access.width access.signed))
  | .trigger =>
      let word := access.position / 4
      some (inRank config (word / 2) (file.trigger (bankOf v (word / 2)) word))
  | .softwareInterrupt => some 0xdeadbeef
  | .peripheralId => none
  | _ => some 0

/-- Where the words of a register lie in the frame. -/
def Spans : Register → Nat → Nat → Prop
  | .control, first, last => first = 0x000 ∧ last = 0x000
  | .typeRegister, first, last => first = 0x004 ∧ last = 0x004
  | .implementer, first, last => first = 0x008 ∧ last = 0x008
  | .setEnable, first, last => first = 0x100 ∧ last = 0x17c
  | .clearEnable, first, last => first = 0x180 ∧ last = 0x1fc
  | .setPending, first, last => first = 0x200 ∧ last = 0x27c
  | .clearPending, first, last => first = 0x280 ∧ last = 0x2fc
  | .setActive, first, last => first = 0x300 ∧ last = 0x37c
  | .clearActive, first, last => first = 0x380 ∧ last = 0x3fc
  | .priority, first, last => first = 0x400 ∧ last = 0x7f8
  | .targets, first, last => first = 0x800 ∧ last = 0xbf8
  | .trigger, first, last => first = 0xc00 ∧ last = 0xcfc
  | .softwareInterrupt, first, last => first = 0xf00 ∧ last = 0xf00
  | .clearSoftwarePending, first, last => first = 0xf10 ∧ last = 0xf1c
  | .setSoftwarePending, first, last => first = 0xf20 ∧ last = 0xf2c
  | .peripheralId, first, last => first = 0xfe8 ∧ last = 0xfe8
  | .zero, first, last =>
      0x00c ≤ first ∧ last ≤ 0x0fc ∨ first = 0x7fc ∧ last = 0x7fc ∨
        first = 0xbfc ∧ last = 0xbfc ∨ 0xe00 ≤ first ∧ last ≤ 0xefc ∨
        0xf04 ≤ first ∧ last ≤ 0xf0c ∨ 0xf30 ≤ first ∧ last ≤ 0xfe4 ∨
        0xfec ≤ first ∧ last ≤ 0xffc

instance (register : Register) (first last : Nat) : Decidable (Spans register first last) := by
  cases register <;> unfold Spans <;> infer_instance

theorem spans_of_mem : ∀ group ∈ Frame.groups, Spans group.register group.first group.last := by
  decide

theorem unknown_of_none {offset : Nat} (none : Frame.group? offset = none) :
    0xd00 ≤ offset ∧ offset < 0xe00 ∨ 0x1000 ≤ offset := by
  simp only [Frame.group?, Frame.groups, Frame.reserved, List.find?_eq_none, List.forall_mem_cons,
    Group.contains, Bool.and_eq_true, decide_eq_true_eq, not_and, Nat.not_lt] at none
  omega

/-- The registers that can be accessed by the byte. -/
def byteRegisters : List Register :=
  [.setPending, .clearPending, .priority, .targets, .clearSoftwarePending, .setSoftwarePending]

theorem byte_of_mem : ∀ group ∈ Frame.groups,
    group.widths.allow .byte = true ↔ group.register ∈ byteRegisters := by
  decide

theorem write_of_accepts {group : Group} {offset : Nat} {width : Width}
    (accepts : group.Accepts offset width) (file : RegisterFile) (v : Nat) (value : Word) :
    file.write v offset width value =
      file.writeRegister v (group.access offset width false) value group.register := by
  obtain ⟨member, inside⟩ := Frame.group?_eq_some_iff.1 accepts.1
  have spans := spans_of_mem group member
  simp only [Group.contains, Bool.and_eq_true, decide_eq_true_eq] at inside
  unfold write Group.access
  cases register : group.register <;> rw [register] at spans <;> simp only [Spans] at spans
  case zero =>
    simp (disch := omega) only [if_neg, writeRegister]
  case targets =>
    simp only [writeRegister, Frame.firstWritableTarget, spans.1]
    by_cases fixed : offset < 0x808
    · simp (disch := omega) only [if_neg, if_pos]
    · simp (disch := omega) only [if_neg, if_pos]
  case trigger =>
    simp only [writeRegister, Frame.firstWritableTrigger, spans.1]
    by_cases fixed : offset < 0xc08
    · simp (disch := omega) only [if_neg, if_pos]
    · simp (disch := omega) only [if_neg, if_pos]
  all_goals simp (disch := omega) only [if_neg, if_pos, writeRegister, spans.1]

theorem load_of_accepts {group : Group} {offset : Nat} {width : Width}
    (accepts : group.Accepts offset width) (config : Config) (file : RegisterFile) (v : Nat)
    (signed : Bool) :
    file.load config v offset width signed =
      file.loadRegister config v (group.access offset width signed) group.register := by
  obtain ⟨found, allowed⟩ := accepts
  obtain ⟨member, inside⟩ := Frame.group?_eq_some_iff.1 found
  have spans := spans_of_mem group member
  simp only [Group.contains, Bool.and_eq_true, decide_eq_true_eq] at inside
  unfold load Group.access
  cases width with
  | halfword | doubleword =>
      cases widths : group.widths <;> rw [widths] at allowed <;> cases allowed
  | word =>
      cases register : group.register <;> rw [register] at spans <;> simp only [Spans] at spans
      case zero =>
        simp only [loadRegister]
        rcases spans with range | range | range | range | range | range | range <;>
          simp (disch := omega) only [if_neg, if_pos]
      all_goals simp (disch := omega) only [if_neg, if_pos, loadRegister, spans.1]
  | byte =>
      have bytes := (byte_of_mem group member).1 allowed
      cases register : group.register <;> rw [register] at spans bytes <;>
        simp only [Spans] at spans
      case setPending | clearPending | priority | targets | clearSoftwarePending |
          setSoftwarePending =>
        simp (disch := omega) only [if_neg, if_pos, loadRegister, spans.1]
      all_goals exact absurd bytes (by decide)

/-- What can be read from the file is accepted as an access. -/
theorem accepts_of_load {config : Config} {file : RegisterFile} {v offset : Nat} {width : Width}
    {signed : Bool} {value : Word} (loaded : file.load config v offset width signed = some value) :
    ∃ group : Group, group.Accepts offset width := by
  cases found : Frame.group? offset with
  | none =>
      have outside := unknown_of_none found
      unfold load at loaded
      cases width with
      | halfword | doubleword => cases loaded
      | word =>
          rcases outside with range | range <;>
            simp (disch := omega) only [if_neg, if_pos, reduceCtorEq] at loaded
      | byte => simp (disch := omega) only [if_neg, reduceCtorEq] at loaded
  | some group =>
      refine ⟨group, found, ?_⟩
      obtain ⟨member, inside⟩ := Frame.group?_eq_some_iff.1 found
      have spans := spans_of_mem group member
      simp only [Group.contains, Bool.and_eq_true, decide_eq_true_eq] at inside
      unfold load at loaded
      cases width with
      | halfword | doubleword => cases loaded
      | word => cases group.widths <;> rfl
      | byte =>
          rw [byte_of_mem group member]
          cases register : group.register <;> rw [register] at spans <;>
            simp only [Spans] at spans
          case setPending | clearPending | priority | targets | clearSoftwarePending |
              setSoftwarePending => decide
          all_goals simp (disch := omega) only [if_neg, reduceCtorEq] at loaded

end RegisterFile

end VirtualGic
