/-
# Proofs.Faultless — nothing a guest does is a fault

A fault is an index out of range, an overflow or a full buffer, and the program would stop at
it. The numbers a guest chooses go into word indices, differences, shifts and a buffer of
eight targets, and each stays in range for a reason from elsewhere: the register layout, the
accepted configuration, the width of a field. `Distributor.Bounded` is what is needed of
the distributor; it is fixed at the start (`bounded_run`).

`faultless_run` is the result: whatever is asked of a distributor but to enable or disable
lines of a rank directly gets an answer or a refusal, and an address means its distance from
the base, also where the frame ends with the address space.
-/
import VirtualGic.Proofs.Reading
import Mathlib.Data.List.Perm.Subperm

namespace VirtualGic

set_option autoImplicit false

/-! ## Sizes that keep numbers in range -/

/-- Different numbers below a bound are no more than the bound. -/
theorem length_le_of_nodup_of_lt {numbers : List Nat} {bound : Nat} (distinct : numbers.Nodup)
    (below : ∀ number ∈ numbers, number < bound) : numbers.length ≤ bound := by
  have within : numbers ⊆ List.range bound :=
    fun number member => List.mem_range.2 (below number member)
  have shorter := (List.subperm_of_subset distinct within).length_le
  rwa [List.length_range] at shorter

/-- How large the parts of a distributor are. -/
structure Distributor.Bounded (d : Distributor) : Prop where
  nonempty : 0 < d.config.vcpus
  few : d.config.vcpus ≤ maxVcpus
  room : d.vcpus.size ≤ maxVcpus
  ranks : d.sharedRanks.size < 32
  counted : ∃ lines, d.config.lineCount = .ok lines

theorem Config.lineCount_of_validate {config : Config} (valid : config.validate = .ok ()) :
    ∃ lines, config.lineCount = .ok lines := by
  unfold validate at valid
  split at valid
  · cases valid
  · split at valid
    · cases valid
    · rename_i lines counted
      exact ⟨lines, counted⟩

theorem Distributor.lt_of_present {d : Distributor} {v : Nat}
    (present : (d.vcpu? v).isSome = true) : v < d.vcpus.size := by
  refine Decidable.byContradiction fun outside => ?_
  simp [vcpu?, Array.getElem?_eq_none (Nat.le_of_not_lt outside)] at present

theorem Distributor.mem_present {d : Distributor} {v : Nat} :
    v ∈ d.present ↔ (d.vcpu? v).isSome = true := by
  rw [present, List.mem_filter, List.mem_range]
  exact ⟨(·.2), fun there => ⟨lt_of_present there, there⟩⟩

namespace Machine

variable {σ : Type} [Host σ]

theorem bounded_run {config : Config} {host : σ} {m : Machine σ}
    (started : Machine.start config host = .ok m) (operations : List Operation) :
    (m.run operations).dist.Bounded := by
  have shape := shape_run started operations
  simp only [Distributor.shape, Prod.mk.injEq] at shape
  obtain ⟨settings, ranks, -, vcpus⟩ := shape
  obtain ⟨valid, -⟩ := start_eq_ok_iff.1 started
  obtain ⟨nonempty, few, small⟩ := config.bounds_of_validate valid
  refine ⟨settings ▸ nonempty, settings ▸ few, vcpus ▸ few, ranks ▸ small, ?_⟩
  rw [settings]
  exact Config.lineCount_of_validate valid

end Machine

/-! ## Targets of a software interrupt -/

namespace SetBits

theorem nodup_toList (bits : SetBits) : bits.toList.Nodup := by
  rw [toList_eq_filter]
  exact List.nodup_range.filter _

end SetBits

theorem SoftwareInterrupt.lt_of_mem_targetList {value : Word} {target : Nat}
    (member : target ∈ (SetBits.mk (targetList.read value)).toList) : target < maxVcpus := by
  have named := SetBits.mem_toList_iff.1 member
  rw [targetList.getLsbD_read (by decide), Bool.and_eq_true, decide_eq_true_iff] at named
  exact named.1

namespace Machine

variable {σ : Type} [Host σ]

theorem sublist_onlineAmong (m : Machine σ) (vs : List Nat) : (m.onlineAmong vs).1.Sublist vs := by
  induction vs generalizing m with
  | nil => exact List.Sublist.slnil
  | cons v rest ih =>
      unfold onlineAmong
      simp only
      split
      · exact (ih _).cons_cons v
      · exact (ih _).cons v

theorem nodup_softwareTargets (m : Machine σ) (v : Nat) (value : Word) (choice : TargetFilter) :
    (m.softwareTargets v value choice).1.Nodup := by
  cases choice with
  | list => exact SetBits.nodup_toList _
  | selfOnly => exact List.pairwise_singleton _ v
  | allButSelf =>
      exact ((List.nodup_range.filter _).filter _).sublist (sublist_onlineAmong m _)

theorem lt_of_mem_softwareTargets {m : Machine σ} (bounded : m.dist.Bounded) {v : Nat}
    (present : (m.dist.vcpu? v).isSome = true) {value : Word} {choice : TargetFilter}
    {target : Nat} (member : target ∈ (m.softwareTargets v value choice).1) :
    target < maxVcpus := by
  cases choice with
  | list => exact SoftwareInterrupt.lt_of_mem_targetList member
  | selfOnly =>
      obtain rfl := List.mem_singleton.1 member
      exact Nat.lt_of_lt_of_le (Distributor.lt_of_present present) bounded.room
  | allButSelf =>
      have among := (List.mem_filter.1 ((sublist_onlineAmong m _).subset member)).1
      exact Nat.lt_of_lt_of_le (List.mem_range.1 (List.mem_filter.1 among).1) bounded.room

/-- The targets are different numbers below eight, so there is room for them. -/
theorem length_softwareTargets {m : Machine σ} (bounded : m.dist.Bounded) {v : Nat}
    (present : (m.dist.vcpu? v).isSome = true) (value : Word) (choice : TargetFilter) :
    (m.softwareTargets v value choice).1.length ≤ maxVcpus :=
  length_le_of_nodup_of_lt (nodup_softwareTargets m v value choice)
    fun _ member => lt_of_mem_softwareTargets bounded present member

theorem sendSoftware_ok {m : Machine σ} (bounded : m.dist.Bounded) {v : Nat}
    (present : (m.dist.vcpu? v).isSome = true) (value : Word) :
    (m.sendSoftware v value).1 = .ok () := by
  unfold sendSoftware
  split
  · rfl
  · rename_i choice _
    simp only
    rw [if_neg (Nat.not_lt.2 (length_softwareTargets bounded present value choice))]

end Machine

/-! ## Reads and writes -/

/-- The registers that leave reads to the trap layer. -/
def Register.unreadable : List Register :=
  [.peripheralId]

theorem Distributor.readBank_ok (d : Distributor) (v : Nat) (access : Access) (bank : Bank) :
    ∃ value, d.readBank v access bank = .ok value := by
  unfold readBank
  split
  · exact ⟨0, rfl⟩
  · rename_i rank _
    obtain ⟨word, held⟩ := Option.isSome_iff_exists.1
      ((rank.word?_isSome_iff bank _).2 (wordIndex_lt bank access.position))
    rw [held]
    exact ⟨_, rfl⟩

theorem Distributor.readSenders_ok {d : Distributor} {v : Nat}
    (present : (d.vcpu? v).isSome = true) {access : Access} (inside : access.position / 4 < 4) :
    ∃ value, d.readSenders v access = .ok value := by
  obtain ⟨vcpu, found⟩ := Option.isSome_iff_exists.1 present
  obtain ⟨word, held⟩ := Option.isSome_iff_exists.1
    ((vcpu.rank.word?_isSome_iff .senders _).2 inside)
  simp [readSenders, rank?, found, held]

/-- Where a byte lies in a group that is accessed: the difference does not go below zero. -/
theorem Group.Accepts.position_lt {group : Group} {offset : Nat} {width : Width}
    (accepts : group.Accepts offset width) :
    group.first ≤ offset ∧ offset - group.first < group.last + 4 - group.first := by
  have inside := (Frame.group?_eq_some_iff.1 accepts.1).2
  simp only [Group.contains, Bool.and_eq_true, decide_eq_true_eq] at inside
  omega

/-- A read of a register is left to the trap layer or answered. -/
theorem Distributor.readRegister_cases {d : Distributor} (bounded : d.Bounded) {v : Nat}
    (present : (d.vcpu? v).isSome = true) {group : Group} {offset : Nat} {width : Width}
    (accepts : group.Accepts offset width) (signed : Bool) :
    group.register ∈ Register.unreadable ∧
        d.readRegister v (group.access offset width signed) group.register =
          .error (.refused (.unhandled offset)) ∨
      group.register ∉ Register.unreadable ∧
        ∃ value, d.readRegister v (group.access offset width signed) group.register =
          .ok value := by
  have spans := RegisterFile.spans_of_mem group (Frame.group?_eq_some_iff.1 accepts.1).1
  have position := accepts.position_lt
  cases register : group.register <;> rw [register] at spans
  case peripheralId => exact .inl ⟨List.mem_singleton.2 rfl, rfl⟩
  all_goals refine .inr ⟨by decide, ?_⟩
  case control | implementer | zero | softwareInterrupt => exact ⟨_, rfl⟩
  case typeRegister =>
    exact ⟨_, TypeRegister.contents_eq bounded.nonempty bounded.few bounded.ranks⟩
  case clearSoftwarePending | setSoftwarePending =>
    simp only [RegisterFile.Spans] at spans
    refine d.readSenders_ok present ?_
    simp only [Group.access]
    omega
  all_goals exact d.readBank_ok v _ _

namespace Machine

variable {σ : Type} [Host σ] {m : Machine σ}

/-- A write of a register is left to the trap layer or accepted. -/
theorem writeRegister_cases (bounded : m.dist.Bounded) {v : Nat}
    (present : (m.dist.vcpu? v).isSome = true) {group : Group} {offset : Nat} {width : Width}
    (accepts : group.Accepts offset width) (signed : Bool) (value : Word) :
    group.register ∈ Register.unwritable ∧
        (m.writeRegister v (group.access offset width signed) value group.register).1 =
          .error (.refused (.unhandled offset)) ∨
      group.register ∉ Register.unwritable ∧
        (m.writeRegister v (group.access offset width signed) value group.register).1 =
          .ok () := by
  by_cases software : group.register = .softwareInterrupt
  · rw [software]
    exact .inr ⟨by decide, sendSoftware_ok bounded present value⟩
  · rw [writeRegister_answer (Frame.rankIndex_lt_of_enable accepts.1) software]
    by_cases unwritable : group.register ∈ Register.unwritable
    · rw [if_pos unwritable]
      exact .inl ⟨unwritable, rfl⟩
    · rw [if_neg unwritable]
      exact .inr ⟨unwritable, rfl⟩

end Machine

/-! ## Answers -/

/-- A result that is a value or a refusal, and no fault. -/
def FaultFree {α : Type} (result : Result α) : Prop :=
  (∃ value, result = .ok value) ∨ ∃ error, result = .error (.refused error)

namespace FaultFree

variable {α β : Type}

theorem ok (value : α) : FaultFree (.ok value) :=
  .inl ⟨value, rfl⟩

theorem refused (error : Error) : FaultFree (.error (.refused error) : Result α) :=
  .inr ⟨error, rfl⟩

theorem map {result : Result α} (free : FaultFree result) (f : α → β) :
    FaultFree (result.map f) := by
  rcases free with ⟨value, rfl⟩ | ⟨error, rfl⟩
  · exact .ok (f value)
  · exact .refused error

theorem mapError (result : Except Error α) : FaultFree (result.mapError .refused) := by
  cases result with
  | ok value => exact .ok value
  | error error => exact .refused error

end FaultFree

namespace Machine

variable {σ : Type} [Host σ] {m : Machine σ}

theorem faultFree_read (bounded : m.dist.Bounded) (v offset : Nat) (width : Width)
    (signed : Bool) : FaultFree (m.read v offset width signed).1 := by
  cases required : m.dist.requireVcpu v with
  | error error =>
      rw [read, required]
      exact .refused error
  | ok vcpu =>
      have present := Distributor.present_of_requireVcpu required
      cases decoded : m.decode v offset width with
      | mk answer after =>
          cases answer with
          | error error =>
              rw [read, required]
              simp only [decoded]
              exact .refused error
          | ok group =>
              have accepts := (accepts_of_decode decoded).1
              rw [read_of_accepts present accepts]
              rcases m.dist.readRegister_cases bounded present accepts signed with
                ⟨-, answered⟩ | ⟨-, value, answered⟩
              · rw [answered]
                exact .refused _
              · rw [answered]
                exact .ok value

theorem faultFree_write (bounded : m.dist.Bounded) (v offset : Nat) (width : Width)
    (value : Word) : FaultFree (m.write v offset width value).1 := by
  cases required : m.dist.requireVcpu v with
  | error error =>
      rw [write, required]
      exact .refused error
  | ok vcpu =>
      have present := Distributor.present_of_requireVcpu required
      cases decoded : m.decode v offset width with
      | mk answer after =>
          cases answer with
          | error error =>
              rw [write, required]
              simp only [decoded]
              exact .refused error
          | ok group =>
              have accepts := (accepts_of_decode decoded).1
              rw [write_of_accepts present accepts]
              rcases (m.note (.registerWritten v group.name (offset - group.first)
                  value)).writeRegister_cases bounded present accepts false value with
                ⟨-, answered⟩ | ⟨-, answered⟩
              · rw [answered]
                exact .refused _
              · rw [answered]
                exact .ok ()

theorem faultFree_inject (m : Machine σ) (v line : Nat) : FaultFree (m.inject v line).1 := by
  unfold inject injectAmid
  split
  · exact .refused _
  · exact .ok ()

theorem faultFree_injectSpi (m : Machine σ) (line : Nat) : FaultFree (m.injectSpi line).1 := by
  unfold injectSpi
  split
  · exact .refused _
  · split
    · exact .refused _
    · split
      · exact .refused _
      · rename_i rank _
        have inside : line % linesPerRank / 4 < Bank.targets.words := by
          simp only [linesPerRank, Bank.words]
          omega
        obtain ⟨word, held⟩ := Option.isSome_iff_exists.1
          ((rank.word?_isSome_iff .targets _).2 inside)
        have named : rank.target? (line % linesPerRank) =
            some (word.lane (line % linesPerRank)) := by
          rw [Rank.target?, Rank.byte?, held]
          rfl
        rw [named]
        exact faultFree_inject _ _ line

omit [Host σ] in
theorem faultFree_initVcpu (bounded : m.dist.Bounded) (v : Nat) : FaultFree (m.initVcpu v).1 := by
  obtain ⟨lines, counted⟩ := bounded.counted
  unfold initVcpu
  rw [counted]
  simp only
  split
  · exact .refused _
  · exact .refused _
  · rename_i slot
    have inside : v < maxVcpus :=
      Nat.lt_of_lt_of_le (Array.getElem?_eq_some_iff.1 slot).1 bounded.room
    rw [Vcpu.create, if_pos inside]
    exact .ok ()

theorem faultFree_clearPending (m : Machine σ) (v : Nat) : FaultFree (m.clearPending v).1 := by
  unfold clearPending
  split
  · exact .refused _
  · exact .ok ()

theorem faultFree_freeVcpu (m : Machine σ) (v : Nat) : FaultFree (m.freeVcpu v).1 := by
  have cleared := faultFree_clearPending m v
  unfold freeVcpu
  cases done : m.clearPending v with
  | mk answer after =>
      rw [done] at cleared
      cases answer with
      | error failure => exact cleared
      | ok _ => exact .ok ()

theorem faultFree_retire (m : Machine σ) (v line : Nat) : FaultFree (m.retire v line).1 := by
  cases resolved : m.dist.resolve v line with
  | error error =>
      rw [retire, resolved]
      exact .refused error
  | ok ref =>
      rw [retire_of_resolve resolved]
      split
      · exact .ok false
      · split
        · exact .ok true
        · exact .ok false

omit [Host σ] in
theorem faultFree_updateStatus (f : Descriptor → Descriptor) (v line : Nat) (m : Machine σ) :
    FaultFree (m.updateStatus f v line).1 := by
  unfold updateStatus
  split
  · exact .refused _
  · exact .ok ()

/-- Only lines that are enabled or disabled directly can be a fault. -/
theorem faultFree_perform (bounded : m.dist.Bounded) {operation : Operation}
    (guest : operation.masksDirectly = false) : FaultFree (m.perform operation).1 := by
  cases operation with
  | enableLines | disableLines => cases guest
  | initVcpu v => exact (faultFree_initVcpu bounded v).map _
  | freeVcpu v => exact (faultFree_freeVcpu m v).map _
  | read v offset width signed => exact (faultFree_read bounded v offset width signed).map _
  | write v offset width value => exact (faultFree_write bounded v offset width value).map _
  | readAt v address width signed =>
      refine FaultFree.map ?_ _
      unfold readAt
      split
      · exact .refused _
      · exact faultFree_read bounded v _ width signed
  | writeAt v address width value =>
      refine FaultFree.map ?_ _
      unfold writeAt
      split
      · exact .refused _
      · exact faultFree_write bounded v _ width value
  | inject v line => exact (faultFree_inject m v line).map _
  | injectSpi line => exact (faultFree_injectSpi m line).map _
  | dispatchSoftware v value =>
      refine FaultFree.map ?_ _
      unfold dispatchSoftware
      split
      · exact .refused _
      · rename_i vcpu required
        rw [sendSoftware_ok bounded (Distributor.present_of_requireVcpu required)]
        exact .ok ()
  | clearPending v => exact (faultFree_clearPending m v).map _
  | setVisible v line visible => exact (faultFree_updateStatus _ v line m).map _
  | setActive v line active => exact (faultFree_updateStatus _ v line m).map _
  | retire v line => exact (faultFree_retire m v line).map _
  | routePhysical v line irq =>
      refine FaultFree.map ?_ _
      unfold routePhysical
      split
      · exact .refused _
      · exact .ok ()
  | unroutePhysical v line =>
      refine FaultFree.map ?_ _
      unfold unroutePhysical
      split
      · exact .refused _
      · exact .ok _
  | inflightLines v => exact (FaultFree.mapError _).map _
  | pendingStatus v line => exact (FaultFree.mapError _).map _

end Machine

/-! ## Addresses -/

namespace Config

variable {config : Config} {address : BitVec 64}

theorem frameOffset_inside (above : config.base.toNat ≤ address.toNat)
    (below : address.toNat < config.base.toNat + Frame.size) :
    config.frameOffset address = .ok (address.toNat - config.base.toNat) := by
  have distance : (address - config.base).toNat = address.toNat - config.base.toNat :=
    BitVec.toNat_sub_of_le (BitVec.le_def.2 above)
  have inside : config.frameContains address = true := by
    rw [frameContains, distance, Bool.and_eq_true, decide_eq_true_eq, decide_eq_true_eq]
    exact ⟨BitVec.le_def.2 above, by omega⟩
  rw [frameOffset, if_pos inside, distance]

theorem frameOffset_outside
    (outside : address.toNat < config.base.toNat ∨
      config.base.toNat + Frame.size ≤ address.toNat) :
    config.frameOffset address =
      .error (.unhandled ((address - config.base).toNat % range32)) := by
  have missed : ¬ config.frameContains address = true := by
    rw [frameContains, Bool.and_eq_true, decide_eq_true_eq, decide_eq_true_eq]
    rintro ⟨above, near⟩
    rw [BitVec.toNat_sub_of_le above] at near
    have := BitVec.le_def.1 above
    omega
  rw [frameOffset, if_neg missed]

end Config

/-! ## Every history -/

/-- What can be asked of a distributor without a fault, and what an address means to it. -/
structure Machine.Faultless {σ : Type} [Host σ] (config : Config) (m : Machine σ) : Prop where
  /-- Every operation that does not enable or disable lines of a rank directly is answered
  or refused. -/
  answered : ∀ operation, operation.masksDirectly = false →
    (∃ answer, (m.perform operation).1 = .ok answer) ∨
      ∃ error, (m.perform operation).1 = .error (.refused error)
  /-- The position in a group is no negative number. -/
  position : ∀ offset group, Frame.group? offset = some group → group.first ≤ offset
  /-- The priority that a delivery looks up is in its rank. -/
  priority : ∀ v line rank, m.dist.rank? v (rankOfLine line) = some rank →
    (rank.priority? (line % linesPerRank)).isSome = true
  /-- An address in the frame is its distance from the base. -/
  inside : ∀ v (address : BitVec 64), config.base.toNat ≤ address.toNat →
    address.toNat < config.base.toNat + 4096 →
    (∀ width signed, m.perform (.readAt v address width signed) =
        m.perform (.read v (address.toNat - config.base.toNat) width signed)) ∧
      ∀ width value, m.perform (.writeAt v address width value) =
        m.perform (.write v (address.toNat - config.base.toNat) width value)
  /-- Any other address is left to the trap layer, and nothing happens. -/
  outside : ∀ v (address : BitVec 64),
    address.toNat < config.base.toNat ∨ config.base.toNat + 4096 ≤ address.toNat →
    (∀ width signed, m.perform (.readAt v address width signed) =
        (.error (.refused (.unhandled ((address - config.base).toNat % range32))), m)) ∧
      ∀ width value, m.perform (.writeAt v address width value) =
        (.error (.refused (.unhandled ((address - config.base).toNat % range32))), m)

namespace Machine

variable {σ : Type} [Host σ]

/-- No guest makes the distributor fault, whatever has happened before. -/
theorem faultless_run {config : Config} {host : σ} {m : Machine σ}
    (started : Machine.start config host = .ok m) (operations : List Operation) :
    (m.run operations).Faultless config := by
  have bounded := bounded_run started operations
  have settings : (m.run operations).dist.config = config :=
    congrArg Prod.fst (shape_run started operations)
  generalize m.run operations = s at bounded settings ⊢
  refine ⟨fun operation guest => faultFree_perform bounded guest, ?_, ?_, ?_, ?_⟩
  · intro offset group found
    have inside := (Frame.group?_eq_some_iff.1 found).2
    simp only [Group.contains, Bool.and_eq_true, decide_eq_true_eq] at inside
    exact inside.1
  · intro v line rank _
    have inside : line % linesPerRank / 4 < Bank.priority.words := by
      simp only [linesPerRank, Bank.words]
      omega
    rw [Rank.priority?, Rank.byte?, Option.isSome_map, rank.word?_isSome_iff]
    exact inside
  · intro v address above below
    have offset := Config.frameOffset_inside above below
    rw [← settings] at offset ⊢
    refine ⟨fun width signed => ?_, fun width value => ?_⟩
    · simp only [perform, readAt, offset]
    · simp only [perform, writeAt, offset]
  · intro v address outside
    have missed := Config.frameOffset_outside outside
    rw [← settings] at missed ⊢
    refine ⟨fun width signed => ?_, fun width value => ?_⟩
    · simp only [perform, readAt, missed]
      rfl
    · simp only [perform, writeAt, missed]
      rfl

/-- The frame is the last page of the address space. Its last words are read at their
distance from the base, and the frame does not go on at address 0. -/
theorem faultless_run_last_page :
    let config : Config := { base := 0xfffffffffffff000, vcpus := 8, spis := 988 }
    let m : Machine SteadyHost := .fresh config { up := [7] }
    let s := m.run [.initVcpu 7, .write 7 0xf00 .word 0x01ff0003, .injectSpi 1019]
    s.Faultless config ∧
      s.perform (.readAt 7 0xfffffffffffffff8 .word false) =
        s.perform (.read 7 0xff8 .word false) ∧
      s.perform (.readAt 7 0x7 .word false) = (.error (.refused (.unhandled 0x1007)), s) := by
  intro config m s
  have started : Machine.start config ({ up := [7] } : SteadyHost) = .ok m :=
    start_eq_ok_iff.2 ⟨by decide, rfl⟩
  have faultless := faultless_run started
    [.initVcpu 7, .write 7 0xf00 .word 0x01ff0003, .injectSpi 1019]
  have near : (0xfffffffffffffff8 : BitVec 64).toNat - config.base.toNat = 0xff8 := by decide
  have far : ((0x7 : BitVec 64) - config.base).toNat % range32 = 0x1007 := by decide
  refine ⟨faultless, ?_, ?_⟩
  · rw [(faultless.inside 7 0xfffffffffffffff8 (by decide) (by decide)).1, near]
  · rw [(faultless.outside 7 0x7 (by decide)).1, far]

end Machine

end VirtualGic
