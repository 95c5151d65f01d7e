/-
# Proofs.Reading — reads answer from plain memory

A guest that never looks at interrupts cannot tell the frame from a `RegisterFile`. What a
read answers after any history is what the file has after the accepted operations of the
history, one after the other (`Machine.read_iff_file`); raising, enabling and completing
lines leave no mark in it.

Operations that write no register are made of acts that leave all registers alone
(`Act.KeepsRegisters`). A write stores in one bank what the file stores in its cells, whatever else
it sets off, and a write that is not accepted stores nothing.
-/
import VirtualGic.Proofs.Registers

namespace VirtualGic

set_option autoImplicit false

open RegisterFile

/-! ## Acts that write no register -/

namespace Act

/-- Acts that leave registers and VCPUs alone. -/
def KeepsRegisters : Act → Prop
  | control _ | store .. | allocate .. | release _ => False
  | _ => True

variable {a : Act} {d : Distributor}

theorem Idles.keepsRegisters (idles : a.Idles) : a.KeepsRegisters := by
  cases a <;> trivial

theorem Enables.keepsRegisters {S : LineRef → Prop} (enables : a.Enables S) : a.KeepsRegisters := by
  cases a <;> trivial

theorem Delivers.keepsRegisters {S : LineRef → Prop} (delivers : a.Delivers S) : a.KeepsRegisters :=
  delivers.enables.keepsRegisters

theorem Disables.keepsRegisters {S : LineRef → Prop} (disables : a.Disables S) :
    a.KeepsRegisters := by
  cases a <;> trivial

theorem enabled_apply (keeps : a.KeepsRegisters) : (a.apply d).enabled = d.enabled := by
  cases a with
  | control | store | allocate | release => exact keeps.elim
  | ask | note | call => rfl
  | touch | enable | retrigger | keep => exact d.enabled_updateLine ..
  | link | unlink => exact (show _ = _ from rfl).trans (d.enabled_updateLine ..)
  | clear v => exact d.dropInflight_kept Distributor.enabled_updateLine (fun _ _ _ => rfl) v

theorem KeepsRegisters.reflects {file : RegisterFile} (keeps : a.KeepsRegisters)
    (before : Reflects file d) : Reflects file (a.apply d) := by
  refine ⟨fun v => ?_, ?_, fun v index rank found => ?_⟩
  · rw [← before.up, ← Distributor.inflight?_isSome, ← Distributor.inflight?_isSome,
      inflight?_isSome_apply]
    cases a with
    | allocate | release => exact keeps.elim
    | _ => trivial
  · rw [enabled_apply keeps, before.control]
  · refine before.ranks v index rank ?_
    rw [← rank?_apply (a := a), found]
    cases a with
    | store | allocate | release => exact keeps.elim
    | _ => trivial

end Act

theorem RegisterFile.Reflects.steps {σ : Type} {K : Act → Prop} {m m' : Machine σ}
    {file : RegisterFile} (before : Reflects file m.dist) (steps : Steps K m m')
    (keeps : ∀ a, K a → a.KeepsRegisters) : Reflects file m'.dist :=
  steps.kept (P := fun s => Reflects file s.dist)
    (fun {_ a _} kind step before => step.dist ▸ (keeps a kind).reflects before) before

/-- Only operations that write registers or make and release VCPUs do anything to them. -/
def Operation.KeepsRegisters : Operation → Prop
  | initVcpu _ | freeVcpu _ | write .. | writeAt .. => False
  | _ => True

theorem Operation.KeepsRegisters.of_takes {operation : Operation} {d : Distributor} {a : Act}
    (keeps : operation.KeepsRegisters) (takes : operation.Takes d a) : a.KeepsRegisters := by
  cases operation with
  | initVcpu | freeVcpu | write | writeAt => exact keeps.elim
  | read | readAt | inflightLines | pendingStatus => exact Act.Idles.keepsRegisters takes
  | inject | injectSpi | dispatchSoftware => exact Act.Delivers.keepsRegisters takes
  | enableLines => exact takes.2.keepsRegisters
  | disableLines => exact takes.2.keepsRegisters
  | clearPending =>
      obtain idle | rfl := takes
      · exact idle.keepsRegisters
      · trivial
  | setVisible | setActive | unroutePhysical =>
      obtain ⟨ref, -, rfl⟩ := takes
      trivial
  | routePhysical =>
      obtain idle | ⟨ref, -, rfl⟩ := takes
      · exact idle.keepsRegisters
      · trivial
  | retire =>
      obtain ⟨ref, -, takes⟩ := takes
      split at takes
      · subst takes
        trivial
      · rcases takes with rfl | rfl <;> trivial

/-! ## Registers with fields -/

theorem Control.isSet_enableGroup (value : Word) :
    Control.enableGroup.isSet value = value.getLsbD 0 := by
  have ones : Control.enableGroup.ones = 1 := by decide
  have bit : value &&& 1 = BitVec.setWidth 32 (BitVec.ofBool (value.getLsbD 0)) :=
    BitVec.and_one_eq_setWidth_ofBool_getLsbD
  rw [Field.isSet, Field.read, ones, Control.enableGroup, BitVec.ushiftRight_zero, bit]
  cases value.getLsbD 0 <;> rfl

theorem Control.ofEnabled_eq (enabled : Bool) :
    Control.ofEnabled enabled = if enabled then 1 else 0 := by
  cases enabled <;> decide

theorem TypeRegister.contents_eq {vcpus ranks : Nat} (some : 0 < vcpus) (few : vcpus ≤ maxVcpus)
    (small : ranks < 32) :
    TypeRegister.contents vcpus ranks = .ok (BitVec.ofNat 32 (32 * (vcpus - 1) + ranks)) := by
  have fields : ∀ v : Fin 8, ∀ r : Fin 32,
      cpuNumber.place (BitVec.ofNat 32 v) ||| sharedBlocks.place (BitVec.ofNat 32 r) =
        BitVec.ofNat 32 (32 * v + r) := by
    decide +kernel
  simp only [maxVcpus] at few
  have nonzero : ¬ vcpus % range32 = 0 := by
    simp only [range32]
    omega
  rw [contents, if_neg nonzero]
  exact congrArg _ (fields ⟨vcpus - 1, by omega⟩ ⟨ranks, small⟩)

/-- The fields of the type register have room for what is accepted. -/
theorem Config.bounds_of_validate {config : Config} (valid : config.validate = .ok ()) :
    0 < config.vcpus ∧ config.vcpus ≤ maxVcpus ∧ config.sharedRanks < 32 := by
  unfold validate lineCount at valid
  split at valid
  · cases valid
  · rename_i vcpus
    split at valid
    · cases valid
    · rename_i lines counted
      split at counted
      · obtain rfl := Except.ok.inj counted
        split at valid
        · cases valid
        · rename_i few
          simp only [maxLines, linesPerRank, maxVcpus, Config.sharedRanks] at *
          omega
      · cases counted

/-! ## Writes -/

namespace Machine

variable {σ : Type} {m : Machine σ} {file file' : RegisterFile} {v : Nat} {access : Access}

theorem reflects_writeBank (before : Reflects file m.dist) {bank : Bank} {f : Word → Word}
    (stores : file.Stores file' v bank access.position f) :
    Reflects file' (m.writeBank v access bank f).2.dist := by
  have inside := wordIndex_lt bank access.position
  unfold writeBank
  simp only
  split
  · rename_i absent
    exact before.absent stores absent
  · rename_i rank found
    obtain ⟨old, held⟩ := Option.isSome_iff_exists.1 ((rank.word?_isSome_iff bank _).2 inside)
    rw [held]
    refine before.updateRank stores fun {rank'} found' other i => ?_
    obtain rfl := Option.some.inj (found.symm.trans found')
    rw [Rank.word?_setWord]
    by_cases here : other = bank ∧ i = wordIndex bank.words access.position
    · obtain ⟨rfl, rfl⟩ := here
      rw [if_pos ⟨rfl, rfl, inside⟩, if_pos ⟨rfl, rfl⟩, held]
      rfl
    · rw [if_neg here, if_neg]
      rintro ⟨rfl, rfl, -⟩
      exact here ⟨rfl, rfl⟩

/-- The bitmap that is stored before lines are enabled or disabled. -/
theorem reflects_changeEnable {d : Distributor} (before : Reflects file d) (position : Nat)
    (f : Word → Word) :
    Reflects (file.changeEnable v (position / 4) f)
      (d.updateRank v (rankIndex Bank.enable.words position)
        fun rank => { rank with enable := f rank.enable }) := by
  refine before.updateRank (file.stores_changeEnable v position f) fun {rank} _ other i => ?_
  have first : wordIndex Bank.enable.words position = 0 := Nat.mod_one _
  rw [first]
  cases other with
  | enable =>
      by_cases zero : i = 0
      · simp [Rank.word?, zero]
      · simp [Rank.word?, zero]
  | _ => rfl

variable [Host σ]

theorem reflects_writeSetEnable (before : Reflects file m.dist) (value : Word)
    (present : (m.dist.vcpu? v).isSome = true) :
    Reflects (file.changeEnable v (access.position / 4) (· ||| value))
      (m.writeSetEnable v access value).2.dist := by
  have stored := reflects_changeEnable (v := v) before access.position (· ||| value)
  unfold writeSetEnable
  simp only
  split
  · rename_i absent
    exact before.absent (file.stores_changeEnable v access.position _) absent
  · split
    · exact stored
    · refine stored.steps (steps_enableMask _ ?_) fun a enables => enables.keepsRegisters
      rw [← Distributor.inflight?_isSome] at present ⊢
      rwa [dist_modify, Distributor.inflight?_updateRank]

theorem reflects_writeClearEnable (before : Reflects file m.dist) (value : Word) :
    Reflects (file.changeEnable v (access.position / 4) (· &&& ~~~value))
      (m.writeClearEnable v access value).2.dist := by
  have stored := reflects_changeEnable (v := v) before access.position (· &&& ~~~value)
  unfold writeClearEnable
  simp only
  split
  · rename_i absent
    exact before.absent (file.stores_changeEnable v access.position _) absent
  · split
    · exact stored
    · exact stored.steps (steps_disableMask _) fun a disables => disables.keepsRegisters

/-- The file is `file'` after an outcome that accepts, and stays `file` after another. -/
def Follows {α : Type} (file file' : RegisterFile) (outcome : Result α × Machine σ) : Prop :=
  Reflects (match outcome.1 with | .ok _ => file' | .error _ => file) outcome.2.dist

/-- What a register is written with, the file is. -/
theorem reflects_writeRegister (before : Reflects file m.dist) (value : Word)
    {register : Register} (present : (m.dist.vcpu? v).isSome = true)
    (width : access.width = .byte ∨ access.width = .word) :
    Reflects (file.writeRegister v access value register)
      (m.writeRegister v access value register).2.dist := by
  have steps := m.steps_writeRegister access value register present
  cases register with
  | control =>
      have stored : (m.writeControl v value).2.dist =
          { m.dist with enabled := value.getLsbD 0 } := by
        unfold writeControl
        rw [← Control.isSet_enableGroup]
        simp only
        split <;> rfl
      rw [Machine.writeRegister, stored]
      exact ⟨before.up, rfl, before.ranks⟩
  | setEnable => exact reflects_writeSetEnable before value present
  | clearEnable => exact reflects_writeClearEnable before value
  | clearActive => exact reflects_writeBank before (file.stores_active v access.position (~~~value))
  | priority => exact reflects_writeBank before (file.stores_priority v width value)
  | targets =>
      simp only [Machine.writeRegister, RegisterFile.writeRegister]
      split
      · exact before
      · exact reflects_writeBank before (file.stores_targets v width value)
  | trigger =>
      simp only [Machine.writeRegister, RegisterFile.writeRegister]
      split
      · exact before
      · exact reflects_writeBank before (file.stores_trigger v access.position value)
  | softwareInterrupt =>
      exact before.steps steps fun a delivers => Act.Delivers.keepsRegisters delivers
  | _ => exact before

/-- A write to a register that is not accepted is none. -/
theorem writeRegister_of_failed (file : RegisterFile) (value : Word) {register : Register}
    (low : register = .setEnable ∨ register = .clearEnable →
      rankIndex Bank.enable.words access.position < 32) {failure : Failure}
    (failed : (m.writeRegister v access value register).1 = .error failure) :
    file.writeRegister v access value register = file := by
  by_cases software : register = .softwareInterrupt
  · rw [software]
    rfl
  · rw [writeRegister_answer low software] at failed
    split at failed
    · rename_i unwritable
      cases register <;> first | rfl | exact absurd unwritable (by decide)
    · cases failed

theorem follows_write (before : Reflects file m.dist) (offset : Nat) (width : Width)
    (value : Word) :
    Follows file (file.write v offset width value) (m.write v offset width value) := by
  rcases m.write_cases v offset width value with
    ⟨failure, refused, still | decoded⟩ | ⟨present, group, accepts, reached⟩
  · rw [Follows, refused, still]
    exact before
  · rw [Follows, refused, decoded]
    exact before.steps (m.steps_decode v offset width) fun a idle => idle.keepsRegisters
  · have widths : width = .byte ∨ width = .word := by
      have allowed := accepts.2
      cases width with
      | byte => exact .inl rfl
      | word => exact .inr rfl
      | halfword | doubleword => cases group.widths <;> cases allowed
    have reflects := @reflects_writeRegister σ
      (m.note (.registerWritten v group.name (offset - group.first) value)) file v
      (group.access offset width false) _ before value group.register present widths
    rw [Follows, reached, file.write_of_accepts accepts]
    split
    · exact reflects
    · rename_i failure failed
      rw [writeRegister_of_failed file value (Frame.rankIndex_lt_of_enable accepts.1) failed]
        at reflects
      exact reflects

/-! ## Operations and histories -/

omit [Host σ] in
theorem Follows.acknowledge {outcome : Result Unit × Machine σ}
    (follows : Follows file file' outcome) : Follows file file' (acknowledge outcome) := by
  obtain ⟨result, after⟩ := outcome
  cases result <;> exact follows

omit [Host σ] in
theorem follows_initVcpu (before : Reflects file m.dist) (v : Nat) :
    Follows file (file.raise v) (m.initVcpu v) := by
  unfold initVcpu
  split
  · exact before
  · split
    · exact before
    · exact before
    · rename_i slot
      split
      · exact before
      · rename_i vcpu created
        exact before.raise (Array.getElem?_eq_some_iff.1 slot).1 created

theorem follows_freeVcpu (before : Reflects file m.dist) (v : Nat) :
    Follows file (file.drop v) (m.freeVcpu v) := by
  have cleared : Reflects file (m.dist.dropInflight v) :=
    Act.KeepsRegisters.reflects (a := .clear v) trivial before
  unfold freeVcpu clearPending
  cases required : m.dist.requireVcpu v with
  | error error => exact before
  | ok vcpu =>
      have there := Distributor.requireVcpu_eq_ok_iff.1 required
      have size : (m.dist.dropInflight v).vcpus.size = m.dist.vcpus.size :=
        congrArg (fun shape => shape.2.2.2) (m.dist.shape_dropInflight v)
      rw [Distributor.vcpu?, Option.join_eq_some_iff] at there
      exact cleared.drop (size ▸ (Array.getElem?_eq_some_iff.1 there).1)

/-- A file follows every operation that is accepted, and no other. -/
theorem follows_perform {config : Config} (settings : m.dist.config = config)
    (before : Reflects file m.dist) (operation : Operation) :
    Follows file (file.follow config operation) (m.perform operation) := by
  have quiet : operation.KeepsRegisters →
      ∀ answer : Result Answer, Follows file file (answer, (m.perform operation).2) := by
    intro keeps answer
    have kept := before.steps (m.perform_steps operation) fun a takes => keeps.of_takes takes
    cases answer <;> exact kept
  cases operation with
  | initVcpu v => exact (follows_initVcpu before v).acknowledge
  | freeVcpu v => exact (follows_freeVcpu before v).acknowledge
  | write v offset width value => exact (follows_write before offset width value).acknowledge
  | writeAt v address width value =>
      refine Follows.acknowledge ?_
      unfold writeAt
      cases inside : m.dist.config.frameOffset address with
      | error error => exact before
      | ok offset =>
          have distance : offset = (address - config.base).toNat := by
            rw [settings, Config.frameOffset] at inside
            split at inside
            · exact (Except.ok.inj inside).symm
            · cases inside
          rw [follow, ← distance]
          exact follows_write before offset width value
  | _ => exact quiet trivial _

/-- The operations of a history that are accepted. -/
def accepted : Machine σ → List Operation → List Operation
  | _, [] => []
  | m, operation :: rest =>
      match (m.perform operation).1 with
      | .ok _ => operation :: accepted (m.perform operation).2 rest
      | .error _ => accepted (m.perform operation).2 rest

end Machine

/-- What a file is after some operations. -/
def RegisterFile.after (config : Config) (operations : List Operation) : RegisterFile :=
  operations.foldl (follow config) {}

namespace Machine

variable {σ : Type} [Host σ] {m : Machine σ}

theorem reflects_run {config : Config} {file : RegisterFile} (settings : m.dist.config = config)
    (before : Reflects file m.dist) (operations : List Operation) :
    Reflects ((m.accepted operations).foldl (follow config) file) (m.run operations).dist := by
  induction operations generalizing m file with
  | nil => exact before
  | cons operation rest ih =>
      have follows := follows_perform settings before operation
      have same : (m.perform operation).2.dist.config = config :=
        (congrArg Prod.fst (m.shape_perform operation)).trans settings
      rw [run_cons, accepted]
      rw [Follows] at follows
      cases answer : (m.perform operation).1 <;> rw [answer] at follows <;> exact ih same follows

/-! ## Reads -/

section Reads

variable {config : Config} {file : RegisterFile} {d : Distributor} {v : Nat}

/-- A word of a bank, as the file has it. -/
theorem readBank_eq (before : Reflects file d) (ranks : d.sharedRanks.size = config.sharedRanks)
    (present : (d.vcpu? v).isSome = true) (access : Access) (bank : Bank) :
    d.readBank v access bank =
      .ok (inRank config (rankIndex bank.words access.position)
        (access.extract (file.word (bankOf v (rankIndex bank.words access.position))
          (rankIndex bank.words access.position) bank
          (wordIndex bank.words access.position)))) := by
  have inside : wordIndex bank.words access.position < bank.words :=
    Nat.mod_lt _ (by cases bank <;> decide)
  unfold Distributor.readBank
  cases found : d.rank? v (rankIndex bank.words access.position) with
  | none =>
      have absent : ¬ rankIndex bank.words access.position ≤ config.sharedRanks := by
        rw [← ranks]
        intro covered
        generalize rankIndex bank.words access.position = index at found covered
        cases index with
        | zero =>
            rw [Distributor.rank?, Option.map_eq_none_iff] at found
            rw [found] at present
            cases present
        | succ index =>
            rw [Distributor.rank?, Array.getElem?_eq_none_iff] at found
            omega
      rw [inRank, if_neg absent]
  | some rank =>
      have covered : rankIndex bank.words access.position ≤ config.sharedRanks := by
        rw [← ranks]
        generalize rankIndex bank.words access.position = index at found
        cases index with
        | zero => exact Nat.zero_le _
        | succ index =>
            rw [Distributor.rank?, Array.getElem?_eq_some_iff] at found
            exact found.1
      simp only [before.ranks v _ rank found bank _ inside]
      rw [inRank, if_pos covered]

omit [Host σ] in
theorem extract_zero (access : Access) : access.extract 0 = 0 := by
  have zero : ∀ i, Word.lane 0 i = 0 := fun i => by simp [Word.lane]
  unfold Access.extract Word.readLane
  rw [zero]
  cases access.width <;> cases access.signed <;> rfl

/-- A register that is read answers what the file has. -/
theorem readRegister_iff (before : Reflects file d)
    (shape : d.shape = (config, config.sharedRanks, config.spis, config.vcpus))
    (valid : config.validate = .ok ()) (present : (d.vcpu? v).isSome = true) {group : Group}
    {offset : Nat} {width : Width} (accepts : group.Accepts offset width) (signed : Bool)
    (value : Word) :
    d.readRegister v (group.access offset width signed) group.register = .ok value ↔
      file.loadRegister config v (group.access offset width signed) group.register =
        some value := by
  have ranks : d.sharedRanks.size = config.sharedRanks := congrArg (fun shape => shape.2.1) shape
  have settings : d.config = config := congrArg Prod.fst shape
  obtain ⟨member, inside⟩ := Frame.group?_eq_some_iff.1 accepts.1
  have spans := spans_of_mem group member
  have bytes := byte_of_mem group member
  simp only [Group.contains, Bool.and_eq_true, decide_eq_true_eq] at inside
  have widths : width = .byte ∧ group.register ∈ byteRegisters ∨ width = .word := by
    have allowed := accepts.2
    cases width with
    | byte => exact .inl ⟨rfl, bytes.1 allowed⟩
    | word => exact .inr rfl
    | halfword | doubleword => cases group.widths <;> cases allowed
  have word := fun bank => readBank_eq before ranks present (group.access offset width signed) bank
  have some_iff : ∀ x : Word, (Except.ok x : Result Word) = .ok value ↔ some x = some value :=
    fun x => by rw [Except.ok.injEq, Option.some.injEq]
  cases register : group.register <;> rw [register] at spans widths <;>
    simp only [Spans] at spans
  case control =>
    rw [Distributor.readRegister, loadRegister, Control.ofEnabled_eq, before.control]
    exact some_iff _
  case typeRegister =>
    obtain ⟨some, few, small⟩ := Config.bounds_of_validate valid
    rw [Distributor.readRegister, loadRegister, settings, ranks,
      TypeRegister.contents_eq some few small]
    exact some_iff _
  case implementer | zero | softwareInterrupt => exact some_iff _
  case peripheralId =>
    constructor
    · rintro ⟨⟩
    · rintro ⟨⟩
  case setPending | clearPending | setActive | clearActive =>
    simp only [Distributor.readRegister, loadRegister, word, RegisterFile.word, extract_zero,
      inRank, ite_self, some_iff]
  case setEnable | clearEnable =>
    have whole : width = .word := widths.resolve_left fun byte => absurd byte.2 (by decide)
    subst whole
    simp only [Distributor.readRegister, loadRegister, word, RegisterFile.word, some_iff]
    simp only [Group.access, Access.extract, rankIndex, Bank.words, Nat.div_one]
  case priority | targets =>
    have either : (group.access offset width signed).width = .byte ∨
        (group.access offset width signed).width = .word := widths.imp_left And.left
    simp only [Distributor.readRegister, loadRegister, word, RegisterFile.word,
      Cells.load_eq _ v either, rankOfLine_eq, Bank.words, number_eq, some_iff]
  case trigger =>
    have whole : width = .word := widths.resolve_left fun byte => absurd byte.2 (by decide)
    subst whole
    simp only [Distributor.readRegister, loadRegister, word, RegisterFile.word, Bank.words,
      number_eq, some_iff]
    simp only [Group.access, Access.extract, rankIndex]
  case clearSoftwarePending | setSoftwarePending =>
    obtain ⟨vcpu, there⟩ := Option.isSome_iff_exists.1 present
    have own : d.rank? v 0 = some vcpu.rank := by rw [Distributor.rank?, there, Option.map_some]
    have small : (group.access offset width signed).position / 4 < Bank.senders.words := by
      simp only [Group.access, Bank.words]
      omega
    simp only [Distributor.readRegister, loadRegister, Distributor.readSenders, own,
      Option.bind_some, before.ranks v 0 vcpu.rank own .senders _ small, RegisterFile.word,
      extract_zero, some_iff]

/-- A read answers what the file has at the offset, and nothing else. -/
theorem read_iff (before : Reflects file m.dist)
    (shape : m.dist.shape = (config, config.sharedRanks, config.spis, config.vcpus))
    (valid : config.validate = .ok ()) (offset : Nat) (width : Width) (signed : Bool)
    (value : Word) :
    (m.read v offset width signed).1 = .ok value ↔
      file.up v = true ∧ file.load config v offset width signed = some value := by
  rw [← before.up]
  constructor
  · intro answered
    obtain ⟨present, group, accepts⟩ := accepts_of_read answered
    rw [read_of_accepts present accepts] at answered
    rw [file.load_of_accepts accepts]
    exact ⟨present, (readRegister_iff before shape valid present accepts signed value).1 answered⟩
  · rintro ⟨present, loaded⟩
    obtain ⟨group, accepts⟩ := accepts_of_load loaded
    rw [file.load_of_accepts accepts] at loaded
    rw [read_of_accepts present accepts]
    exact (readRegister_iff before shape valid present accepts signed value).2 loaded

end Reads

/-- What is read after a history is what plain memory has after the operations of the
history that were accepted. -/
theorem read_iff_file {config : Config} {host : σ}
    (started : Machine.start config host = .ok m) (operations : List Operation)
    (operation : Operation) (value : Word) :
    ((m.run operations).perform operation).1 = .ok (.word value) ↔
      (RegisterFile.after config (m.accepted operations)).answer? config operation =
        some value := by
  have shape := shape_run started operations
  obtain ⟨valid, rfl⟩ := start_eq_ok_iff.1 started
  have reflects := @reflects_run σ _ (fresh config host) config {} rfl (reflects_create config)
    operations
  rw [RegisterFile.after]
  generalize (fresh config host).run operations = s at shape reflects ⊢
  generalize ((fresh config host).accepted operations).foldl (follow config) {} = file at *
  have reads := fun v offset width signed =>
    @read_iff σ _ s config file v reflects shape valid offset width signed value
  have worded : ∀ {outcome : Result Word × Machine σ},
      (answer Answer.word outcome).1 = .ok (.word value) ↔ outcome.1 = .ok value := by
    rintro ⟨result, after⟩
    cases result <;> simp [answer, Except.map]
  have unworded : ∀ {α : Type} {f : α → Answer} {outcome : Result α × Machine σ},
      (∀ a, f a ≠ .word value) → (answer f outcome).1 ≠ .ok (.word value) := by
    rintro α f ⟨result, after⟩ other
    cases result with
    | ok a => simpa [answer, Except.map] using other a
    | error failure => nofun
  cases operation with
  | read v offset width signed =>
      rw [perform, worded, reads, answer?]
      split <;> simp [*]
  | readAt v address width signed =>
      have settings : s.dist.config = config := congrArg Prod.fst shape
      rw [perform, worded, readAt, answer?, settings, Config.frameOffset]
      cases inside : config.frameContains address with
      | false => simp
      | true =>
          simp only [if_true, Bool.true_and, reads]
          split <;> simp [*]
  | _ => exact ⟨fun read => absurd read (unworded fun _ same => by cases same), nofun⟩

/-- VCPU 0 writes the priorities of lines 40 to 43 at once, and VCPU 1 that of line 42 after
the line was raised; VCPU 0 reads the byte of VCPU 1, widened by its sign. -/
theorem read_iff_file_widened :
    let m : Machine SteadyHost := .fresh (.forHardware 2 64) { up := [0, 1] }
    let operations : List Operation := [.initVcpu 0, .initVcpu 1,
      .write 0 0x42a .word 0x80706050, .inject 0 42, .write 1 0x42a .byte 0x1c0]
    let file := RegisterFile.after (.forHardware 2 64) (m.accepted operations)
    let read : Operation := .read 0 0x42a .byte true
    file.answer? (.forHardware 2 64) read = some 0xffffffc0 ∧
      ((m.run operations).perform read).1 = .ok (.word 0xffffffc0) := by
  intro m operations file read
  have started : Machine.start (.forHardware 2 64) ({ up := [0, 1] } : SteadyHost) = .ok m := rfl
  have kept : file.answer? (.forHardware 2 64) read = some 0xffffffc0 := by decide +kernel
  exact ⟨kept, (read_iff_file started operations read 0xffffffc0).2 kept⟩

end Machine

end VirtualGic
