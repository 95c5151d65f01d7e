/-
# Proofs.Boundary — where the lines of a frame end

Nine registers have words for lines, with one, two or eight bits for each. The 32 lines of a
rank are a block of such words, and the frame has room for more blocks than there are ranks. A
guest learns the number of the last block from the type register.

`boundary_run` says that the three agree. Up to the last block every access reaches a rank
(`Reaches`), beyond it none does (`Vacant`): zero is read, and a write changes nothing, whether it
is accepted or left to the trap layer. The number is the number of shared lines in blocks of 32,
rounded up, so that no line lies beyond it. It is the same for every register, for the block of an
offset is its rank whatever the bits per line (`Register.rankIndex_of_bits?`).
-/
import VirtualGic.Proofs.Addressing
import VirtualGic.Proofs.Isolation
import VirtualGic.Proofs.Refusal

namespace VirtualGic

set_option autoImplicit false

/-! ## Blocks -/

namespace Register

/-- How many bits a line has in a register that has some for all lines. -/
def bits? : Register → Option Nat
  | setEnable | clearEnable | setPending | clearPending | setActive | clearActive => some 1
  | priority | targets => some 8
  | trigger => some 2
  | _ => none

/-- A word behind a register after a write, where `old` was. -/
def stored (access : Access) (value old : Word) : Register → Word
  | setEnable => old ||| value
  | clearEnable | clearActive => old &&& ~~~value
  | priority => access.merge value old
  | targets =>
      if access.offset < Frame.firstWritableTarget then old else access.merge value old
  | trigger => if access.offset < Frame.firstWritableTrigger then old else value
  | _ => old

variable {register : Register} {bits : Nat}

/-- The words behind a register with bits for all lines. -/
theorem exists_bank (wide : register.bits? = some bits) :
    ∃ bank, register.bank? = some bank ∧ bank.words = bits ∧
      ∀ (d : Distributor) v access,
        d.readRegister v access register = d.readBank v access bank := by
  cases register <;> cases wide
  case setEnable | clearEnable => exact ⟨.enable, rfl, rfl, fun _ _ _ => rfl⟩
  case setPending | clearPending => exact ⟨.pending, rfl, rfl, fun _ _ _ => rfl⟩
  case setActive | clearActive => exact ⟨.active, rfl, rfl, fun _ _ _ => rfl⟩
  case priority => exact ⟨.priority, rfl, rfl, fun _ _ _ => rfl⟩
  case targets => exact ⟨.targets, rfl, rfl, fun _ _ _ => rfl⟩
  case trigger => exact ⟨.trigger, rfl, rfl, fun _ _ _ => rfl⟩

end Register

/-- The block of 32 lines that `offset` addresses in a group with `bits` bits per line: each of
its words has 32 bits. -/
def Group.block (group : Group) (bits offset : Nat) : Nat :=
  (offset - group.first) / (4 * bits)

theorem Group.rankIndex_eq_block (group : Group) (bits offset : Nat) :
    rankIndex bits (offset - group.first) = group.block bits offset :=
  Nat.div_div_eq_div_mul _ _ _

theorem Distributor.rank?_isSome_iff {d : Distributor} {v : Nat}
    (present : (d.vcpu? v).isSome = true) (index : Nat) :
    (d.rank? v index).isSome = true ↔ index ≤ d.sharedRanks.size := by
  cases index with
  | zero => simpa [rank?] using present
  | succ index => simp only [rank?, isSome_getElem?, Nat.succ_le_iff]

namespace Machine

variable {σ : Type}

/-- Whether nothing has happened between two machines but notes. -/
structure Untouched (s t : Machine σ) : Prop where
  dist : t.dist = s.dist
  host : t.host = s.host
  calls : t.calls = s.calls

theorem Untouched.refl (s : Machine σ) : s.Untouched s :=
  ⟨rfl, rfl, rfl⟩

theorem Untouched.trans {s t u : Machine σ} (first : s.Untouched t) (second : t.Untouched u) :
    s.Untouched u :=
  ⟨second.dist.trans first.dist, second.host.trans first.host, second.calls.trans first.calls⟩

theorem Untouched.note {s t : Machine σ} (same : s.Untouched t) (n : Note) :
    s.Untouched (t.note n) :=
  ⟨same.dist, same.host, (t.calls_note n).trans same.calls⟩

variable [Host σ]

/-- An access that reaches no rank: it reads zero, and to write there changes nothing. -/
structure Vacant (s : Machine σ) (v : Nat) (group : Group) (offset : Nat) (width : Width) :
    Prop where
  read : ∀ signed, (s.read v offset width signed).1 = .ok 0
  looked : ∀ signed, s.Untouched (s.read v offset width signed).2
  write : ∀ value, (s.write v offset width value).1 =
    if group.register ∈ Register.unwritable then .error (.refused (.unhandled offset)) else .ok ()
  ignored : ∀ value, s.Untouched (s.write v offset width value).2

/-- An access that reaches the word `old` of a rank: it reads of it, and writes to it. -/
structure Reaches (s : Machine σ) (v : Nat) (group : Group) (offset : Nat) (width : Width)
    (block : Nat) (bank : Bank) (rank : Rank) (old : Word) : Prop where
  found : s.dist.rank? v block = some rank
  held : rank.word? bank (wordIndex bank.words (offset - group.first)) = some old
  read : ∀ signed, (s.read v offset width signed).1 =
    .ok ((group.access offset width signed).extract old)
  write : ∀ value, ∃ rank', (s.write v offset width value).2.dist.rank? v block = some rank' ∧
    rank'.word? bank (wordIndex bank.words (offset - group.first)) =
      some (group.register.stored (group.access offset width false) value old)

/-- For VCPU `v`, the blocks of 32 lines go up to `last`. -/
structure Boundary (s : Machine σ) (v spis last : Nat) : Prop where
  /-- It is the number of shared lines over 32, rounded up. -/
  rounded : spis ≤ linesPerRank * last ∧ linesPerRank * last < spis + linesPerRank
  /-- The type register says so. -/
  advertised : ∀ {group : Group} {offset : Nat} {width : Width} (signed : Bool),
    group.Accepts offset width → group.register = .typeRegister → ∃ value,
      (s.read v offset width signed).1 = .ok value ∧
        (TypeRegister.sharedBlocks.read value).toNat = last
  /-- Beyond it there is nothing. -/
  beyond : ∀ {group : Group} {offset : Nat} {width : Width} {bits : Nat},
    group.Accepts offset width → group.register.bits? = some bits →
      last < group.block bits offset → s.Vacant v group offset width
  /-- Up to it there are ranks. -/
  within : ∀ {group : Group} {offset : Nat} {width : Width} {bits : Nat},
    group.Accepts offset width → group.register.bits? = some bits →
      group.block bits offset ≤ last → ∃ bank rank old, group.register.bank? = some bank ∧
        s.Reaches v group offset width (group.block bits offset) bank rank old
  /-- All lines are there. -/
  lines : ∀ ref : LineRef, (s.dist.descriptor? ref).isSome = true → rankOfLine ref.number ≤ last

/-! ## Beyond the boundary -/

section Access

variable {m : Machine σ} {v : Nat} {group : Group} {offset : Nat} {width : Width} {bits : Nat}

/-- A read that answers leaves everything as it is. -/
theorem untouched_read {signed : Bool} {value : Word}
    (answered : (m.read v offset width signed).1 = .ok value) :
    m.Untouched (m.read v offset width signed).2 := by
  obtain ⟨present, group, accepts⟩ := accepts_of_read answered
  obtain ⟨vcpu, there⟩ := Option.isSome_iff_exists.1 present
  rw [read_of_accepts present accepts] at answered
  unfold read
  rw [Distributor.requireVcpu_eq_ok_iff.2 there, decode_of_accepts accepts]
  simp only [Group.access] at answered ⊢
  rw [answered]
  exact (Untouched.refl m).note _

omit [Host σ] in
theorem untouched_writeBank {access : Access} {bank : Bank}
    (absent : m.dist.rank? v (rankIndex bank.words access.position) = none) (f : Word → Word) :
    m.Untouched (m.writeBank v access bank f).2 := by
  unfold writeBank
  simp only [absent]
  exact (Untouched.refl m).note _

/-- A write to a rank that is absent changes nothing. -/
theorem untouched_writeRegister {register : Register} (wide : register.bits? = some bits)
    {access : Access} (absent : m.dist.rank? v (rankIndex bits access.position) = none)
    (value : Word) : m.Untouched (m.writeRegister v access value register).2 := by
  have still := Untouched.refl m
  cases register <;> cases wide
  case setEnable =>
    unfold writeRegister writeSetEnable
    simp only [Bank.words, absent]
    exact still.note _
  case clearEnable =>
    unfold writeRegister writeClearEnable
    simp only [Bank.words, absent]
    exact still.note _
  case setPending | clearPending | setActive => exact still.note _
  case clearActive | priority => exact untouched_writeBank absent _
  case targets | trigger =>
    unfold writeRegister
    simp only
    split
    · exact still.note _
    · exact untouched_writeBank absent _

theorem vacant_of_absent (accepts : group.Accepts offset width)
    (wide : group.register.bits? = some bits) (present : (m.dist.vcpu? v).isSome = true)
    (absent : m.dist.rank? v (group.block bits offset) = none) : m.Vacant v group offset width := by
  obtain ⟨bank, -, words, reads⟩ := Register.exists_bank wide
  rw [← group.rankIndex_eq_block] at absent
  have zero : ∀ signed, (m.read v offset width signed).1 = .ok 0 := fun signed => by
    rw [read_of_accepts present accepts, reads]
    unfold Distributor.readBank
    simp only [Group.access, words, absent]
  refine ⟨zero, fun signed => untouched_read (zero signed), fun value => ?_, fun value => ?_⟩
  · have other : group.register ≠ .softwareInterrupt := by
      intro register
      rw [register] at wide
      cases wide
    rw [write_of_accepts present accepts,
      writeRegister_answer (Frame.rankIndex_lt_of_enable accepts.1) other]
    rfl
  · rw [write_of_accepts present accepts]
    exact ((Untouched.refl m).note _).trans (untouched_writeRegister wide absent value)

/-! ## Up to the boundary -/

omit [Host σ] in
theorem word?_writeBank {access : Access} {bank : Bank} {rank : Rank} {old : Word}
    (found : m.dist.rank? v (rankIndex bank.words access.position) = some rank)
    (held : rank.word? bank (wordIndex bank.words access.position) = some old) (f : Word → Word) :
    ∃ rank', (m.writeBank v access bank f).2.dist.rank? v (rankIndex bank.words access.position) =
        some rank' ∧ rank'.word? bank (wordIndex bank.words access.position) = some (f old) := by
  unfold writeBank
  simp only [found, held]
  exact ⟨_, rank?_stored found _,
    rank.word?_setWord_self bank _ (wordIndex_lt bank access.position)⟩

/-- A write to a rank that is present goes to the word that is read there. -/
theorem word?_writeRegister {register : Register} {access : Access} {bank : Bank} {rank : Rank}
    {old : Word} (wide : register.bits? = some bits) (own : register.bank? = some bank)
    (low : register = .setEnable ∨ register = .clearEnable →
      rankIndex Bank.enable.words access.position < 32)
    (present : (m.dist.vcpu? v).isSome = true)
    (found : m.dist.rank? v (rankIndex bank.words access.position) = some rank)
    (held : rank.word? bank (wordIndex bank.words access.position) = some old) (value : Word) :
    ∃ rank', (m.writeRegister v access value register).2.dist.rank? v
        (rankIndex bank.words access.position) = some rank' ∧
      rank'.word? bank (wordIndex bank.words access.position) =
        some (register.stored access value old) := by
  have single : ∀ position, wordIndex Bank.enable.words position = 0 := fun _ => Nat.mod_one _
  cases register <;> cases wide <;> cases own
  case setEnable =>
    obtain ⟨stored, -⟩ := writeSetEnable_spec access value rfl (low (.inl rfl)) present found
    simp only [single, Rank.word?, if_true, Option.some.injEq] at held ⊢
    exact ⟨_, stored, held ▸ rfl⟩
  case clearEnable =>
    obtain ⟨stored, -⟩ := writeClearEnable_spec access value rfl (low (.inr rfl)) found
    simp only [single, Rank.word?, if_true, Option.some.injEq] at held ⊢
    exact ⟨_, stored, held ▸ rfl⟩
  case setPending | clearPending | setActive => exact ⟨rank, found, held⟩
  case clearActive | priority => exact word?_writeBank found held _
  case targets | trigger =>
    unfold writeRegister Register.stored
    simp only
    split
    · exact ⟨rank, found, held⟩
    · exact word?_writeBank found held _

theorem reaches_of_rank (accepts : group.Accepts offset width)
    (wide : group.register.bits? = some bits) (present : (m.dist.vcpu? v).isSome = true)
    {rank : Rank} (found : m.dist.rank? v (group.block bits offset) = some rank) :
    ∃ bank old, group.register.bank? = some bank ∧
      m.Reaches v group offset width (group.block bits offset) bank rank old := by
  obtain ⟨bank, own, rfl, reads⟩ := Register.exists_bank wide
  rw [← group.rankIndex_eq_block] at found ⊢
  obtain ⟨old, held⟩ := Option.isSome_iff_exists.1
    ((rank.word?_isSome_iff bank _).2 (wordIndex_lt bank (offset - group.first)))
  refine ⟨bank, old, own, found, held, fun signed => ?_, fun value => ?_⟩
  · rw [read_of_accepts present accepts, reads]
    unfold Distributor.readBank
    simp only [Group.access, found, held]
  · rw [write_of_accepts present accepts]
    have low : group.register = .setEnable ∨ group.register = .clearEnable →
        rankIndex Bank.enable.words (group.access offset width false).position < 32 :=
      Frame.rankIndex_lt_of_enable accepts.1
    exact word?_writeRegister
      (m := m.note (.registerWritten v group.name (offset - group.first) value)) wide own low
      present found held value

end Access

/-! ## Histories -/

/-- The number of blocks can be read from the type register. -/
theorem sharedBlocks_of_read {m : Machine σ} (bounded : m.dist.Bounded) {v : Nat}
    (present : (m.dist.vcpu? v).isSome = true) {group : Group} {offset : Nat} {width : Width}
    (accepts : group.Accepts offset width) (register : group.register = .typeRegister)
    (signed : Bool) : ∃ value, (m.read v offset width signed).1 = .ok value ∧
      (TypeRegister.sharedBlocks.read value).toNat = m.dist.sharedRanks.size := by
  have fields : ∀ cpus : Fin 8, ∀ ranks : Fin 32,
      (TypeRegister.sharedBlocks.read (BitVec.ofNat 32 (32 * cpus + ranks))).toNat = ranks := by
    decide +kernel
  refine ⟨_, ?_, fields ⟨m.dist.config.vcpus - 1, ?_⟩ ⟨m.dist.sharedRanks.size, bounded.ranks⟩⟩
  · rw [read_of_accepts present accepts, register]
    exact TypeRegister.contents_eq bounded.nonempty bounded.few bounded.ranks
  · have few := bounded.few
    simp only [maxVcpus] at few
    omega

/-- After every history, the last block that the type register advertises is the last one that an
access finds a rank in, through every register of lines and whatever the width. -/
theorem boundary_run {config : Config} {host : σ} {m : Machine σ}
    (started : Machine.start config host = .ok m) (operations : List Operation) {v : Nat}
    (present : ((m.run operations).dist.vcpu? v).isSome = true) :
    (m.run operations).Boundary v config.spis config.sharedRanks := by
  have bounded := bounded_run started operations
  have ranked := ranked_run started operations
  have shape := shape_run started operations
  simp only [Distributor.shape, Prod.mk.injEq] at shape
  obtain ⟨-, ranks, lines, -⟩ := shape
  generalize m.run operations = s at *
  refine ⟨?_, fun signed accepts register => ?_, fun accepts wide far => ?_,
    fun accepts wide near => ?_, fun ref there => ?_⟩
  · simp only [Config.sharedRanks, linesPerRank]
    omega
  · rw [← ranks]
    exact sharedBlocks_of_read bounded present accepts register signed
  · refine vacant_of_absent accepts wide present (Option.not_isSome_iff_eq_none.1 fun there => ?_)
    rw [Distributor.rank?_isSome_iff present, ranks] at there
    omega
  · rw [← ranks, ← Distributor.rank?_isSome_iff present] at near
    obtain ⟨rank, found⟩ := Option.isSome_iff_exists.1 near
    obtain ⟨bank, old, own, reaches⟩ := reaches_of_rank accepts wide present found
    exact ⟨bank, rank, old, own, reaches⟩
  · cases ref with
    | banked w line =>
        have small := line.isLt
        simp only [LineRef.number, rankOfLine, linesPerRank]
        omega
    | shared index =>
        have inside : index < s.dist.sharedLines.size := by
          simpa [Distributor.descriptor?] using there
        rw [lines] at inside
        simp only [LineRef.number, rankOfLine, Config.sharedRanks, linesPerRank]
        omega

/-- Of 38 shared lines, 6 are in the block of lines 64 to 95, which is there as a whole. The
block behind it is not: its priorities read as zero, and its pending bits cannot be written
there either. -/
theorem boundary_run_partial_rank :
    let m : Machine SteadyHost := .fresh { vcpus := 1, spis := 38 } { up := [0] }
    let s := m.run [.initVcpu 0, .write 0 0x45f .byte 0xa0, .write 0 0x460 .byte 0xa0]
    s.Boundary 0 38 2 ∧ (s.read 0 0x004 .word false).1.toOption = some 2 ∧
      (s.read 0 0x45f .byte false).1.toOption = some 0xa0 ∧
      (s.read 0 0x460 .byte false).1.toOption = some 0 ∧
      (s.write 0 0x20c .byte 1).1 = .error (.refused (.unhandled 0x20c)) := by
  intro m s
  have started : Machine.start { vcpus := 1, spis := 38 } ({ up := [0] } : SteadyHost) = .ok m :=
    rfl
  have boundary := boundary_run started
    [.initVcpu 0, .write 0 0x45f .byte 0xa0, .write 0 0x460 .byte 0xa0] (v := 0)
    (by decide +kernel)
  refine ⟨boundary, by decide +kernel, by decide +kernel, by decide +kernel, ?_⟩
  obtain ⟨group, register, start, accepts⟩ :=
    Frame.accepts .setPending .byte 0x200 0x27c 0xc (by decide) (by decide)
  have far : 2 < group.block 1 (group.first + 0xc) := by
    simp only [Group.block, Nat.add_sub_cancel_left]
    decide
  rw [start] at accepts far
  have refused := (boundary.beyond accepts (by rw [register]; rfl) far).write 1
  rwa [register] at refused

end Machine

end VirtualGic
