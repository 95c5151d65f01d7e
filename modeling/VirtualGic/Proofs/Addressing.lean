/-
# Proofs.Addressing — offsets of the frame and numbers of lines

A line is found in two ways. The frame goes by offsets: a byte of the line in the
priorities and in the targets, a bit of the word of its rank in the enable bitmap. The
delivery goes by numbers: the rank of 32 lines that has the line, and the place of the
line in it. `Addressed` says that the two meet at the same line, and `addressed_run` that
they do for every line with a descriptor, after every history.

A line without a rank would be queued at priority 0. That never happens, as there is a
rank wherever there is a descriptor (`rank?_of_line`), the last and partly used one
included.
-/
import VirtualGic.Proofs.Access
import VirtualGic.Proofs.Agreement
import VirtualGic.Proofs.Registers

namespace VirtualGic

set_option autoImplicit false

/-- The lines that VCPU `v` sees in a rank, at the bits of `mask`. -/
def LineRef.Selected (v rank : Nat) (mask : Word) (ref : LineRef) : Prop :=
  ref.SeenBy v ∧ ∃ bit, mask.getLsbD bit = true ∧ ref.number = linesPerRank * rank + bit

namespace Machine

variable {σ : Type} [Host σ]

/-- VCPU `v` writes a word of the enable bitmap, where `old` is and `new` is afterwards. The
lines of the rank at the bits of `changed` are enabled or disabled by that, and no others. -/
structure Switches (s : Machine σ) (v offset rank : Nat) (value old new changed : Word)
    (enabled : Bool) : Prop where
  before : (s.read v offset .word false).1 = .ok old
  accepted : (s.write v offset .word value).1 = .ok ()
  after : ((s.write v offset .word value).2.read v offset .word false).1 = .ok new
  selected : ∀ ref : LineRef, ref.Selected v rank changed →
    (s.write v offset .word value).2.dist.flag? ref = (s.dist.flag? ref).map fun _ => enabled
  others : ∀ ref : LineRef, ¬ ref.Selected v rank changed →
    (s.write v offset .word value).2.dist.flag? ref = s.dist.flag? ref

/-- Offsets of the frame lead VCPU `v` to the line that its number leads to. -/
structure Addressed (s : Machine σ) (v line : Nat) (p : Descriptor) : Prop where
  /-- The descriptor is the one of the line. -/
  numbered : p.line = line
  /-- The line has a rank, and a priority in it that is no default. -/
  ranked : ∃ rank, s.dist.rank? v (rankOfLine line) = some rank ∧
    rank.priority? (line % linesPerRank) = some (s.dist.priorityOf v line)
  /-- The line is queued at the byte that is read at its priority. -/
  priority : ∃ high : Byte, (s.read v (0x400 + line) .byte false).1 = .ok (high.setWidth 32) ∧
    (p.owner = none → (s.online v).1 = true →
      (s.inject v line).1 = .ok () ∧
        (s.inject v line).2.dist.line? v line = some (p.claim v high) ∧
        (s.inject v line).2.dist.inflight? v =
          (s.dist.inflight? v).map (·.insert line high))
  /-- A shared line is raised on a VCPU whose bit is in the byte that is read at its targets,
  or on VCPU 0 if none of them is found. -/
  targets : linesPerRank ≤ line →
    ∃ mask : Byte, (s.read v (0x800 + line) .byte false).1 = .ok (mask.setWidth 32) ∧
      ((s.dist.vcpu? 0).isSome = true →
        let found := s.firstOnline (SetBits.mk (mask.setWidth 32)).toList
        let target := found.1.getD 0
        s.injectSpi line = found.2.inject target line ∧
          (mask.getLsbD target = true ∨ found.1 = none ∧ target = 0))
  /-- The lines that a write enables are those whose bit it sets. -/
  enables : ∀ value, ∃ old, s.Switches v (0x100 + 4 * rankOfLine line) (rankOfLine line) value old
    (old ||| value) (value &&& ~~~old) true
  /-- The lines that a write disables are those whose bit it clears. -/
  disables : ∀ value, ∃ old, s.Switches v (0x180 + 4 * rankOfLine line) (rankOfLine line) value
    old (old &&& ~~~value) (value &&& old) false

end Machine

/-! ## Groups, by offset -/

/-- The offsets from the first to the last word of a group are accepted for its register. -/
theorem Frame.accepts (register : Register) (width : Width) (first last place : Nat)
    (listed : ∃ group ∈ groups, group.register = register ∧ group.first = first ∧
      group.last = last ∧ group.widths.allow width = true)
    (inside : first + place < last + 4) :
    ∃ group : Group, group.register = register ∧ group.first = first ∧
      group.Accepts (group.first + place) width := by
  obtain ⟨group, member, kind, rfl, rfl, allowed⟩ := listed
  refine ⟨group, kind, rfl, group?_eq_some_iff.2 ⟨member, ?_⟩, allowed⟩
  simp only [Group.contains, Bool.and_eq_true, decide_eq_true_eq]
  omega

theorem Config.lines_of_validate {config : Config} (valid : config.validate = .ok ()) :
    linesPerRank + config.spis ≤ maxLines := by
  unfold validate lineCount at valid
  grind

theorem Machine.line_lt {σ : Type} [Host σ] {config : Config} {host : σ} {m : Machine σ}
    (started : Machine.start config host = .ok m) (operations : List Operation) {v line : Nat}
    {p : Descriptor} (there : (m.run operations).dist.line? v line = some p) :
    line < maxLines := by
  obtain ⟨valid, -⟩ := start_eq_ok_iff.1 started
  have few := Config.lines_of_validate valid
  have shape := shape_run started operations
  simp only [Distributor.shape, Prod.mk.injEq] at shape
  obtain ⟨ref, rfl, -, found⟩ := Distributor.line?_eq_some_iff.1 there
  cases ref with
  | banked u line =>
      have small := line.isLt
      simp only [LineRef.number, maxLines]
      omega
  | shared index =>
      have inside := (Array.getElem?_eq_some_iff.1 found).1
      simp only [LineRef.number]
      omega

/-! ## Registers, by position -/

/-- Every line of a rank has a target mask. -/
theorem Rank.exists_target (rank : Rank) {index : Nat} (inside : index < linesPerRank) :
    ∃ mask, rank.target? index = some mask := by
  have word : index / 4 < Bank.targets.words := by
    simp only [linesPerRank] at inside
    simp only [Bank.words]
    omega
  obtain ⟨targets, held⟩ := Option.isSome_iff_exists.1 ((rank.word?_isSome_iff .targets _).2 word)
  exact ⟨_, congrArg (Option.map _) held⟩

namespace Distributor

variable {d : Distributor} {v : Nat} {rank : Rank}

/-- The byte at the position of a line is the byte of the line. -/
theorem readBank_of_byte {line : Nat} {bank : Bank} (bytes : bank.words = 8) {byte : Byte}
    (found : d.rank? v (rankOfLine line) = some rank)
    (held : rank.byte? bank (line % linesPerRank) = some byte) (offset : Nat) :
    d.readBank v ⟨offset, line, .byte, false⟩ bank = .ok (byte.setWidth 32) := by
  obtain ⟨word, stored, rfl⟩ := Option.map_eq_some_iff.1 held
  have place : wordIndex 8 line = line % linesPerRank / 4 := by
    simp only [wordIndex, linesPerRank]
    omega
  have lane : Word.lane word line = Word.lane word (line % linesPerRank) :=
    Word.lane_congr word (by simp only [linesPerRank]; omega)
  simp only [readBank, bytes, ← RegisterFile.rankOfLine_eq, found, place, stored, Access.extract,
    Word.readLane, lane, Bool.false_eq_true, if_false]

/-- The word at the position of a rank is the enable bitmap of the rank. -/
theorem readBank_of_enable {index : Nat} (found : d.rank? v index = some rank) (offset : Nat) :
    d.readBank v ⟨offset, 4 * index, .word, false⟩ .enable = .ok rank.enable := by
  have there : rankIndex Bank.enable.words (4 * index) = index := by
    simp only [rankIndex, Bank.words]
    omega
  have single : wordIndex Bank.enable.words (4 * index) = 0 := Nat.mod_one _
  simp only [readBank, there, single, found, Rank.word?, if_true, Access.extract]

end Distributor

/-! ## Writes of the enable bitmap -/

theorem Steps.rank?_kept {σ : Type} {K : Act → Prop} {m m' : Machine σ} (steps : Steps K m m')
    (fixed : ∀ a, K a → match a with | .store .. | .allocate .. | .release _ => False | _ => True)
    (v index : Nat) : m'.dist.rank? v index = m.dist.rank? v index := by
  refine steps.kept (P := fun s => s.dist.rank? v index = m.dist.rank? v index) ?_ rfl
  intro b a c kind step before
  rw [step.dist, Act.rank?_apply (fixed a kind), before]

theorem LineRef.selected_iff {v rank : Nat} {mask : Word} {ref : LineRef} :
    ref.Selected v rank mask ↔
      ref.SeenBy v ∧ rankOfLine ref.number = rank ∧
        mask.getLsbD (ref.number % linesPerRank) = true := by
  simp only [Selected, rankOfLine, linesPerRank]
  constructor
  · rintro ⟨seen, bit, set, number⟩
    have inside : bit < 32 := BitVec.lt_of_getLsbD set
    have place : ref.number % 32 = bit := by omega
    exact ⟨seen, by omega, place ▸ set⟩
  · rintro ⟨seen, rfl, set⟩
    exact ⟨seen, _, set, by omega⟩

namespace Machine

variable {σ : Type} [Host σ] {m : Machine σ} {v : Nat} {rank : Rank} {access : Access}
  {value : Word}

omit [Host σ] in
theorem present_updateRank (present : (m.dist.vcpu? v).isSome = true) (index : Nat)
    (f : Rank → Rank) : (((m.modify (·.updateRank v index f))).dist.vcpu? v).isSome = true := by
  rw [← Distributor.inflight?_isSome] at present ⊢
  rwa [dist_modify, Distributor.inflight?_updateRank]

omit [Host σ] in
theorem rank?_stored {index : Nat} (found : m.dist.rank? v index = some rank)
    (f : Rank → Rank) :
    (m.modify (·.updateRank v index f)).dist.rank? v index = some (f rank) := by
  rw [dist_modify, Distributor.rank?_updateRank, if_pos ⟨rfl, fun _ => rfl⟩, found]
  rfl

/-- The rank and the lines after a write that enables lines. -/
theorem writeSetEnable_spec (access : Access) (value : Word) {index : Nat}
    (position : rankIndex Bank.enable.words access.position = index) (low : index < 32)
    (present : (m.dist.vcpu? v).isSome = true) (found : m.dist.rank? v index = some rank) :
    (m.writeSetEnable v access value).2.dist.rank? v index =
        some { rank with enable := rank.enable ||| value } ∧
      ∀ ref : LineRef, (m.writeSetEnable v access value).2.dist.flag? ref =
        if ref.SeenBy v ∧ rankOfLine ref.number = index ∧
            (value &&& ~~~rank.enable).getLsbD (ref.number % linesPerRank) = true then
          (m.dist.flag? ref).map (fun _ => true)
        else m.dist.flag? ref := by
  unfold writeSetEnable
  simp only [position, found]
  have stored := rank?_stored found fun rank => { rank with enable := rank.enable ||| value }
  have alive := present_updateRank present index
    fun rank => { rank with enable := rank.enable ||| value }
  split
  · rename_i unchanged
    refine ⟨stored, fun ref => ?_⟩
    rw [unchanged, if_neg (by simp)]
    exact m.dist.flag?_updateRank v index _ ref
  · constructor
    · rw [(steps_enableMask _ alive).rank?_kept, stored]
      intro a enables
      cases a <;> trivial
    · intro ref
      rw [flag?_enableMask _ low alive, dist_modify, Distributor.flag?_updateRank]

/-- The rank and the lines after a write that disables lines. -/
theorem writeClearEnable_spec (access : Access) (value : Word) {index : Nat}
    (position : rankIndex Bank.enable.words access.position = index) (low : index < 32)
    (found : m.dist.rank? v index = some rank) :
    (m.writeClearEnable v access value).2.dist.rank? v index =
        some { rank with enable := rank.enable &&& ~~~value } ∧
      ∀ ref : LineRef, (m.writeClearEnable v access value).2.dist.flag? ref =
        if ref.SeenBy v ∧ rankOfLine ref.number = index ∧
            (value &&& rank.enable).getLsbD (ref.number % linesPerRank) = true then
          (m.dist.flag? ref).map (fun _ => false)
        else m.dist.flag? ref := by
  unfold writeClearEnable
  simp only [position, found]
  have stored := rank?_stored found fun rank => { rank with enable := rank.enable &&& ~~~value }
  split
  · rename_i unchanged
    refine ⟨stored, fun ref => ?_⟩
    rw [unchanged, if_neg (by simp)]
    exact m.dist.flag?_updateRank v index _ ref
  · constructor
    · rw [(steps_disableMask _).rank?_kept, stored]
      intro a disables
      cases a <;> trivial
    · intro ref
      rw [flag?_disableMask _ low, dist_modify, Distributor.flag?_updateRank]

/-- A write of the enable bitmap leaves the VCPUs that have state. -/
theorem present_writeRegister {register : Register}
    (bitmap : register = .setEnable ∨ register = .clearEnable)
    (present : (m.dist.vcpu? v).isSome = true) :
    ((m.writeRegister v access value register).2.dist.vcpu? v).isSome = true := by
  refine present_of_steps ?_ (m.steps_writeRegister access value register present) present
  rcases bitmap with rfl | rfl <;> rintro a (⟨f, rfl⟩ | masked)
  · trivial
  · cases a <;> trivial
  · trivial
  · cases a <;> trivial

theorem read_enable {s : Machine σ} {group : Group} {index : Nat}
    (accepts : group.Accepts (group.first + 4 * index) .word)
    (bitmap : group.register = .setEnable ∨ group.register = .clearEnable)
    (present : (s.dist.vcpu? v).isSome = true) (found : s.dist.rank? v index = some rank) :
    (s.read v (group.first + 4 * index) .word false).1 = .ok rank.enable := by
  rw [read_of_accepts present accepts, Group.access, Nat.add_sub_cancel_left]
  rcases bitmap with register | register <;> rw [register] <;>
    exact Distributor.readBank_of_enable found _

/-- A write of the enable bitmap, from what becomes of the rank and of the lines. -/
theorem Switches.of_write {s : Machine σ} {group : Group} {index : Nat} {new changed : Word}
    {enabled : Bool} (accepts : group.Accepts (group.first + 4 * index) .word)
    (bitmap : group.register = .setEnable ∨ group.register = .clearEnable)
    (present : (s.dist.vcpu? v).isSome = true) (found : s.dist.rank? v index = some rank)
    {done : Result Unit × Machine σ} (write : s.write v (group.first + 4 * index) .word value = done)
    (accepted : done.1 = .ok ()) (alive : (done.2.dist.vcpu? v).isSome = true)
    (stored : done.2.dist.rank? v index = some { rank with enable := new })
    (flags : ∀ ref : LineRef, done.2.dist.flag? ref =
      if ref.SeenBy v ∧ rankOfLine ref.number = index ∧
          changed.getLsbD (ref.number % linesPerRank) = true then
        (s.dist.flag? ref).map (fun _ => enabled)
      else s.dist.flag? ref) :
    s.Switches v (group.first + 4 * index) index value rank.enable new changed enabled := by
  subst write
  refine ⟨read_enable accepts bitmap present found, accepted,
    read_enable accepts bitmap alive stored, fun ref selected => ?_, fun ref other => ?_⟩
  · rw [flags, if_pos (LineRef.selected_iff.1 selected)]
  · rw [flags, if_neg (fun selected => other (LineRef.selected_iff.2 selected))]

omit [Host σ] in
theorem rankIndex_access (group : Group) (index : Nat) :
    rankIndex Bank.enable.words
      (group.access (group.first + 4 * index) .word false).position = index := by
  simp only [Group.access, rankIndex, Bank.words]
  omega

theorem switches_setEnable {s : Machine σ} {group : Group} {index : Nat}
    (accepts : group.Accepts (group.first + 4 * index) .word)
    (bitmap : group.register = .setEnable) (low : index < 32)
    (present : (s.dist.vcpu? v).isSome = true) (found : s.dist.rank? v index = some rank)
    (value : Word) :
    s.Switches v (group.first + 4 * index) index value rank.enable (rank.enable ||| value)
      (value &&& ~~~rank.enable) true := by
  have position := rankIndex_access group index
  have reached : s.write v _ .word value = _ := write_of_accepts present accepts
  rw [bitmap] at reached
  obtain ⟨stored, flags⟩ := writeSetEnable_spec (m := s.note _) _ value position low present found
  exact .of_write accepts (.inl bitmap) present found reached
    (writeSetEnable_ok value (position.symm ▸ low)) (present_writeRegister (.inl rfl) present)
    stored flags

theorem switches_clearEnable {s : Machine σ} {group : Group} {index : Nat}
    (accepts : group.Accepts (group.first + 4 * index) .word)
    (bitmap : group.register = .clearEnable) (low : index < 32)
    (present : (s.dist.vcpu? v).isSome = true) (found : s.dist.rank? v index = some rank)
    (value : Word) :
    s.Switches v (group.first + 4 * index) index value rank.enable (rank.enable &&& ~~~value)
      (value &&& rank.enable) false := by
  have position := rankIndex_access group index
  have reached : s.write v _ .word value = _ := write_of_accepts present accepts
  rw [bitmap] at reached
  obtain ⟨stored, flags⟩ := writeClearEnable_spec (m := s.note _) _ value position low found
  exact .of_write accepts (.inr bitmap) present found reached
    (writeClearEnable_ok value (position.symm ▸ low)) (present_writeRegister (.inr rfl) present)
    stored flags

/-! ## Lines that are raised -/

theorem read_byte {s : Machine σ} {group : Group} {line : Nat} {bank : Bank} {byte : Byte}
    (accepts : group.Accepts (group.first + line) .byte)
    (reads : ∀ access, s.dist.readRegister v access group.register = s.dist.readBank v access bank)
    (bytes : bank.words = 8) (present : (s.dist.vcpu? v).isSome = true)
    (found : s.dist.rank? v (rankOfLine line) = some rank)
    (held : rank.byte? bank (line % linesPerRank) = some byte) :
    (s.read v (group.first + line) .byte false).1 = .ok (byte.setWidth 32) := by
  rw [read_of_accepts present accepts, reads, Group.access, Nat.add_sub_cancel_left]
  exact Distributor.readBank_of_byte bytes found held _

/-- An injection of a free line queues it at the priority that its rank has for it. -/
theorem inject_of_free {s : Machine σ} (consistent : Consistent s.dist) {ref : LineRef}
    {p : Descriptor} (seen : ref.SeenBy v) (there : s.dist.descriptor? ref = some p)
    (present : (s.dist.vcpu? v).isSome = true) (free : p.owner = none)
    (up : (s.online v).1 = true) :
    (s.inject v ref.number).1 = .ok () ∧
      (s.inject v ref.number).2.dist.line? v ref.number =
        some (p.claim v (s.dist.priorityOf v ref.number)) ∧
      (s.inject v ref.number).2.dist.inflight? v =
        (s.dist.inflight? v).map (·.insert ref.number (s.dist.priorityOf v ref.number)) := by
  have found : s.dist.lineRef? v ref.number = some ref :=
    Distributor.lineRef?_eq_some_iff.2 ⟨rfl, seen, by simp [there]⟩
  have resolved := Distributor.resolve_eq_ok_iff.2 ⟨present, found⟩
  have here := Distributor.descriptor_of_eq_some there
  have dist := dist_inject_of_free resolved (here ▸ free) up
  rw [here, consistent.numbered there] at dist
  refine ⟨?_, ?_, ?_⟩
  · rw [inject_of_resolve resolved]
  · refine Distributor.line?_eq_some_iff.2 ⟨ref, rfl, seen, ?_⟩
    rw [dist, Act.descriptor?_apply_of_change? rfl, if_pos rfl, there]
    rfl
  · rw [dist, Act.apply, Distributor.inflight?_updateLine_updateInflight, if_pos rfl, here,
      consistent.numbered there]

/-- Whoever is found is one of those asked about, and has state. -/
theorem mem_of_firstOnline {m : Machine σ} {vs : List Nat} {target : Nat}
    (found : (m.firstOnline vs).1 = some target) :
    target ∈ vs ∧ (m.dist.vcpu? target).isSome = true := by
  induction vs generalizing m with
  | nil => cases found
  | cons v rest ih =>
      unfold firstOnline at found
      split at found
      · exact (ih found).imp_left (List.mem_cons_of_mem v)
      · rename_i state there
        simp only at found
        split at found
        · obtain rfl := Option.some.inj found
          exact ⟨List.mem_cons_self, Option.isSome_iff_exists.2 ⟨state, there⟩⟩
        · exact (ih (m := (m.online v).2) found).imp_left (List.mem_cons_of_mem v)

/-- A VCPU that is found in a byte has its bit there. -/
theorem named_of_firstOnline (s : Machine σ) (mask : Byte) :
    let found := s.firstOnline (SetBits.mk (mask.setWidth 32)).toList
    mask.getLsbD (found.1.getD 0) = true ∨ found.1 = none ∧ found.1.getD 0 = 0 := by
  intro found
  cases answer : found.1 with
  | none => exact .inr ⟨rfl, rfl⟩
  | some target =>
      left
      have member := SetBits.mem_toList_iff.1 (mem_of_firstOnline answer).1
      rw [BitVec.getLsbD_setWidth, Bool.and_eq_true] at member
      exact member.2

/-- A shared line is raised on the first VCPU of its target byte that is online. -/
theorem injectSpi_of_target {s : Machine σ} {line : Nat} {mask : Byte} (high : linesPerRank ≤ line)
    (first : (s.dist.vcpu? 0).isSome = true)
    (found : s.dist.rank? 0 (rankOfLine line) = some rank)
    (held : rank.target? (line % linesPerRank) = some mask) :
    s.injectSpi line =
      let found := s.firstOnline (SetBits.mk (mask.setWidth 32)).toList
      found.2.inject (found.1.getD 0) line := by
  obtain ⟨vcpu, there⟩ := Option.isSome_iff_exists.1 first
  unfold injectSpi
  rw [if_neg (Nat.not_lt.2 high), Distributor.requireVcpu_eq_ok_iff.2 there]
  simp only [found, held]

/-- After every history, the frame and the delivery find the same line under every offset and
every number of a line that has a descriptor. -/
theorem addressed_run {config : Config} {host : σ} {m : Machine σ}
    (started : Machine.start config host = .ok m) (operations : List Operation) {v line : Nat}
    (present : ((m.run operations).dist.vcpu? v).isSome = true) {p : Descriptor}
    (there : (m.run operations).dist.line? v line = some p) :
    (m.run operations).Addressed v line p := by
  have small : line < 1020 := line_lt started operations there
  have consistent := consistent_run started operations
  have ranked := ranked_run started operations
  generalize m.run operations = s at *
  obtain ⟨ref, rfl, seen, known⟩ := Distributor.line?_eq_some_iff.1 there
  obtain ⟨rank, found, priority⟩ := Distributor.rank?_of_line ranked seen (by simp [known])
  obtain ⟨mask, target⟩ := rank.exists_target (Nat.mod_lt ref.number (by decide))
  have low : rankOfLine ref.number < 32 := by
    simp only [rankOfLine, linesPerRank]
    omega
  refine {
    numbered := consistent.numbered known
    ranked := ⟨rank, found, priority⟩
    priority := ⟨_, ?_, fun free up => inject_of_free consistent seen known present free up⟩
    targets := fun high => ⟨mask, ?_, fun zero =>
      ⟨injectSpi_of_target high zero ?_ target, named_of_firstOnline s mask⟩⟩
    enables := fun value => ⟨rank.enable, ?_⟩
    disables := fun value => ⟨rank.enable, ?_⟩ }
  · obtain ⟨group, kind, start, accepts⟩ :=
      Frame.accepts .priority .byte 0x400 0x7f8 ref.number (by decide) (by omega)
    rw [← start]
    exact read_byte accepts (fun _ => by rw [kind]; rfl) rfl present found priority
  · obtain ⟨group, kind, start, accepts⟩ :=
      Frame.accepts .targets .byte 0x800 0xbf8 ref.number (by decide) (by omega)
    rw [← start]
    exact read_byte accepts (fun _ => by rw [kind]; rfl) rfl present found target
  · rw [s.dist.rank?_of_seenBy (LineRef.seenBy_shared high 0), ← s.dist.rank?_of_seenBy seen, found]
  · obtain ⟨group, kind, start, accepts⟩ :=
      Frame.accepts .setEnable .word 0x100 0x17c (4 * rankOfLine ref.number) (by decide) (by omega)
    rw [← start]
    exact switches_setEnable accepts kind low present found value
  · obtain ⟨group, kind, start, accepts⟩ :=
      Frame.accepts .clearEnable .word 0x180 0x1fc (4 * rankOfLine ref.number) (by decide)
        (by omega)
    rw [← start]
    exact switches_clearEnable accepts kind low present found value

/-- Line 69 is the last of a rank that is partly used. Its priority is written by VCPU 0, and
it is raised on VCPU 1. -/
theorem addressed_run_last_line :
    let m : Machine SteadyHost := .fresh (.forHardware 2 70) { up := [0, 1] }
    let s := m.run [.initVcpu 0, .initVcpu 1, .write 0 0x445 .byte 0x50]
    ∃ p, s.dist.line? 1 69 = some p ∧ s.Addressed 1 69 p ∧
      (s.read 1 0x445 .byte false).1.toOption = some 0x50 ∧
      ((s.inject 1 69).2.dist.inflight? 1).map (·.entries) = some [⟨69, 0x50⟩] := by
  intro m s
  have started : Machine.start (.forHardware 2 70) ({ up := [0, 1] } : SteadyHost) = .ok m := rfl
  have present : (s.dist.vcpu? 1).isSome = true := by decide +kernel
  have there : (s.dist.line? 1 69).isSome = true := by decide +kernel
  obtain ⟨p, found⟩ := Option.isSome_iff_exists.1 there
  exact ⟨p, found, addressed_run started _ present found, by decide +kernel, by decide +kernel⟩

end Machine

end VirtualGic
