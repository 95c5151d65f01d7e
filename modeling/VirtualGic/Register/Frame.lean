/-
# Register.Frame — the 4 KiB register frame

The frame is a list of register groups. A group is a run of words from `first` to
`last`, with the widths it accepts and the register it stands for. Offsets that lie
in no group are unknown to the distributor. `group?_eq_some_iff` is the reading of
a look-up: a group of the frame that contains the offset, and there is only one.
-/
import VirtualGic.Access.Width

namespace VirtualGic

set_option autoImplicit false

/-- What the words of a register group are. -/
inductive Register where
  /-- The enable bit of the distributor. -/
  | control
  /-- The numbers of VCPUs and shared ranks. -/
  | typeRegister
  /-- The implementer. -/
  | implementer
  /-- Words that read as zero and ignore writes. -/
  | zero
  /-- The enable bitmap; writing ones enables lines. -/
  | setEnable
  /-- The enable bitmap; writing ones disables lines. -/
  | clearEnable
  /-- The pending bitmap, not writable. -/
  | setPending
  /-- The pending bitmap, not writable. -/
  | clearPending
  /-- The active bitmap, not settable. -/
  | setActive
  /-- The active bitmap; writing ones clears bits. -/
  | clearActive
  /-- One priority byte per line. -/
  | priority
  /-- One target mask per line. -/
  | targets
  /-- Two trigger bits per line. -/
  | trigger
  /-- Raises software interrupts when written. -/
  | softwareInterrupt
  /-- The senders of pending software interrupts, not writable. -/
  | clearSoftwarePending
  /-- The senders of pending software interrupts, not writable. -/
  | setSoftwarePending
  /-- The peripheral identification, not readable. -/
  | peripheralId
deriving DecidableEq

/-- A run of words of the frame. -/
structure Group where
  /-- The name of the first offset in the register layout. -/
  symbol : String
  /-- The name that messages use. -/
  name : String
  /-- The offset of the first word. -/
  first : Nat
  /-- The offset of the last word. -/
  last : Nat
  /-- The widths the group accepts. -/
  widths : Widths
  /-- What the words are. -/
  register : Register
deriving DecidableEq

/-- Whether the byte at `offset` lies in the group. -/
def Group.contains (group : Group) (offset : Nat) : Bool :=
  group.first ≤ offset && offset < group.last + 4

namespace Frame

/-- The size of the frame in bytes. -/
def size : Nat := 0x1000

/-- The first writable byte of the target registers; lines 0 to 7 have fixed targets. -/
def firstWritableTarget : Nat := 0x808

/-- The first writable byte of the trigger registers; private lines have fixed
triggers. -/
def firstWritableTrigger : Nat := 0xc08

/-- Words without a function. -/
def reserved (symbol name : String) (first last : Nat) : Group :=
  ⟨symbol, name, first, last, .wordOnly, .zero⟩

/-- The register groups, in ascending order of their offsets. -/
def groups : List Group :=
  [⟨"CTLR", "CTLR", 0x000, 0x000, .wordOnly, .control⟩,
    ⟨"TYPER", "TYPER", 0x004, 0x004, .wordOnly, .typeRegister⟩,
    ⟨"IIDR", "IIDR", 0x008, 0x008, .wordOnly, .implementer⟩,
    reserved "RESERVED_0" "reserved" 0x00c 0x01c,
    reserved "IMPDEF_0" "impdef" 0x020 0x03c,
    reserved "RESERVED_1" "reserved" 0x040 0x07c,
    reserved "IGROUPR" "IGROUPR" 0x080 0x0fc,
    ⟨"ISENABLER", "ISENABLER", 0x100, 0x17c, .wordOnly, .setEnable⟩,
    ⟨"ICENABLER", "ICENABLER", 0x180, 0x1fc, .wordOnly, .clearEnable⟩,
    ⟨"ISPENDR", "ISPENDR", 0x200, 0x27c, .byteOrWord, .setPending⟩,
    ⟨"ICPENDR", "ICPENDR", 0x280, 0x2fc, .byteOrWord, .clearPending⟩,
    ⟨"ISACTIVER", "ISACTIVER", 0x300, 0x37c, .wordOnly, .setActive⟩,
    ⟨"ICACTIVER", "ICACTIVER", 0x380, 0x3fc, .wordOnly, .clearActive⟩,
    ⟨"IPRIORITYR", "IPRIORITYR", 0x400, 0x7f8, .byteOrWord, .priority⟩,
    reserved "RESERVED_2" "reserved" 0x7fc 0x7fc,
    ⟨"ITARGETSR", "ITARGETSR", 0x800, 0xbf8, .byteOrWord, .targets⟩,
    reserved "RESERVED_3" "reserved" 0xbfc 0xbfc,
    ⟨"ICFGR", "ICFGR", 0xc00, 0xcfc, .wordOnly, .trigger⟩,
    reserved "NSACR" "NSACR" 0xe00 0xefc,
    ⟨"SGIR", "SGIR", 0xf00, 0xf00, .wordOnly, .softwareInterrupt⟩,
    reserved "RESERVED_4" "reserved" 0xf04 0xf0c,
    ⟨"CPENDSGIR", "CPENDSGIR", 0xf10, 0xf1c, .byteOrWord, .clearSoftwarePending⟩,
    ⟨"SPENDSGIR", "SPENDSGIR", 0xf20, 0xf2c, .byteOrWord, .setSoftwarePending⟩,
    reserved "RESERVED_5" "reserved" 0xf30 0xfcc,
    reserved "IMPDEF_1" "impdef" 0xfd0 0xfe4,
    ⟨"ICPIDR2", "ICPIDR2", 0xfe8, 0xfe8, .wordOnly, .peripheralId⟩,
    reserved "IMPDEF_2" "impdef" 0xfec 0xffc]

/-- The group that contains the byte at `offset`. -/
def group? (offset : Nat) : Option Group :=
  groups.find? (·.contains offset)

/-- The names of the layout: the first offset of every group, the last word of every
group with more than one word, and where the writable parts begin. -/
def symbols : List (String × Nat) :=
  groups.flatMap (fun group =>
      (group.symbol, group.first) ::
        if group.last = group.first then [] else [(group.symbol ++ "_END", group.last)]) ++
    [("ITARGETSR_WRITABLE", firstWritableTarget), ("ICFGR_WRITABLE", firstWritableTrigger)]

/-- Groups further down the list lie above. -/
theorem groups_ascend : groups.Pairwise (fun a b => a.last + 4 ≤ b.first) := by
  decide

/-- Two groups of the frame with a byte in common are one group. -/
theorem eq_of_contains {a b : Group} (ha : a ∈ groups) (hb : b ∈ groups) {offset : Nat}
    (ca : a.contains offset = true) (cb : b.contains offset = true) : a = b := by
  obtain ⟨i, hi, rfl⟩ := List.getElem_of_mem ha
  obtain ⟨j, hj, rfl⟩ := List.getElem_of_mem hb
  have ascend := List.pairwise_iff_getElem.1 groups_ascend
  simp only [Group.contains, Bool.and_eq_true, decide_eq_true_eq] at ca cb
  rcases Nat.lt_trichotomy i j with lt | eq | gt
  · have := ascend i j hi hj lt
    omega
  · subst eq
    rfl
  · have := ascend j i hj hi gt
    omega

theorem contains_of_group? {offset : Nat} {group : Group} (found : group? offset = some group) :
    group.contains offset = true :=
  List.find?_some (p := fun g : Group => g.contains offset) found

/-- A look-up finds the group of the frame that contains the offset. -/
theorem group?_eq_some_iff {offset : Nat} {group : Group} :
    group? offset = some group ↔ group ∈ groups ∧ group.contains offset = true := by
  constructor
  · intro found
    exact ⟨List.mem_of_find?_eq_some found, contains_of_group? found⟩
  · rintro ⟨member, inside⟩
    cases found : group? offset with
    | none => exact absurd inside (List.find?_eq_none.1 found group member)
    | some other =>
        have listed := List.mem_of_find?_eq_some found
        exact congrArg some (eq_of_contains listed member (contains_of_group? found) inside)

end Frame

end VirtualGic
