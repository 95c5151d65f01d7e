/-
# Proofs.Isolation — one VCPU's accesses, seen from another VCPU

Private lines have the same numbers on every VCPU, and the guest enables and disables
lines by number. `access_isolated` says that an access of one VCPU reaches no private
line of another: the rank and the descriptors of the other VCPU stay, and so do the
private entries of its list, in their order. An access that addresses rank 0 leaves the
other VCPU and everything shared alone altogether.

`Act.Within` bounds what an access does: it acts on lines that its VCPU sees in the rank
it addresses. A shared line may then be on the list of any VCPU, but its number is none
of a private line. A private line is on no list but that of its own VCPU, because lists
and owners agree; without that, taking a line off the list of its owner could take
another VCPU's line of that number.
-/
import VirtualGic.Proofs.Access
import VirtualGic.Proofs.Agreement
import VirtualGic.Proofs.Shape

namespace VirtualGic

set_option autoImplicit false

/-! ## The rank that an access addresses -/

/-- The words behind a register that has some for every line. -/
def Register.bank? : Register → Option Bank
  | .setEnable | .clearEnable => some .enable
  | .setPending | .clearPending => some .pending
  | .setActive | .clearActive => some .active
  | .priority => some .priority
  | .targets => some .targets
  | .trigger => some .trigger
  | .clearSoftwarePending | .setSoftwarePending => some .senders
  | _ => none

/-- The rank that `position` addresses in a group of this register. -/
def Register.rank? (register : Register) (position : Nat) : Option Nat :=
  register.bank?.map fun bank => rankIndex bank.words position

/-- The rank that `offset` addresses, nothing where the frame has no words for lines. -/
def Frame.rank? (offset : Nat) : Option Nat :=
  (group? offset).bind fun group => group.register.rank? (offset - group.first)

namespace Operation

/-- The VCPU whose guest accesses the frame. -/
def accessor? : Operation → Option Nat
  | .read v .. | .write v .. | .readAt v .. | .writeAt v .. => some v
  | _ => none

/-- The offset that an access names; an address outside the frame names none. -/
def offset? (config : Config) : Operation → Option Nat
  | .read _ offset .. | .write _ offset .. => some offset
  | .readAt _ address .. | .writeAt _ address .. => (config.frameOffset address).toOption
  | _ => none

/-- Whether an operation writes. -/
def isWrite : Operation → Bool
  | .write .. | .writeAt .. => true
  | _ => false

/-- The register that an access reaches, if it reaches one. -/
def register? (config : Config) (operation : Operation) : Option Register :=
  ((operation.offset? config).bind Frame.group?).map (·.register)

/-- The rank that an access addresses. -/
def rank? (config : Config) (operation : Operation) : Option Nat :=
  (operation.offset? config).bind Frame.rank?

end Operation

/-! ## What is private -/

/-- The entries of private lines, in their order. -/
def Inflight.privateEntries (list : Inflight) : List Entry :=
  list.entries.filter (·.line < linesPerRank)

/-- The part of a VCPU that is about its private lines. -/
def Vcpu.own (vcpu : Vcpu) : Rank × Vector Descriptor 32 × List Entry :=
  (vcpu.rank, vcpu.lines, vcpu.inflight.privateEntries)

theorem Entry.filter_insertInto {entry : Entry} {keep : Entry → Bool}
    (dropped : keep entry = false) (entries : List Entry) :
    (entry.insertInto entries).filter keep = entries.filter keep := by
  induction entries with
  | nil => simp [insertInto, dropped]
  | cons head rest ih =>
      simp only [insertInto]
      split
      · simp [dropped]
      · simp only [List.filter_cons, ih]

theorem Entry.filter_eraseP {keep gone : Entry → Bool}
    (apart : ∀ entry, gone entry = true → keep entry = false) (entries : List Entry) :
    (entries.eraseP gone).filter keep = entries.filter keep := by
  induction entries with
  | nil => rfl
  | cons head rest ih =>
      by_cases here : gone head = true
      · rw [List.eraseP_cons_of_pos here, List.filter_cons_of_neg (by simp [apart head here])]
      · rw [List.eraseP_cons_of_neg here, List.filter_cons, List.filter_cons, ih]

namespace Inflight

theorem privateEntries_insert {line : Nat} (high : linesPerRank ≤ line) (priority : Byte)
    (list : Inflight) : (list.insert line priority).privateEntries = list.privateEntries :=
  Entry.filter_insertInto (by simpa using high) list.entries

theorem privateEntries_erase {line : Nat} (high : linesPerRank ≤ line) (list : Inflight) :
    (list.erase line).privateEntries = list.privateEntries := by
  refine Entry.filter_eraseP (fun entry same => ?_) list.entries
  have number : entry.line = line := by simpa using same
  simpa [number] using high

end Inflight

/-! ## Changes, seen from another VCPU -/

namespace Distributor

theorem vcpu?_updateLine_of_seenBy (d : Distributor) {v w : Nat} {ref : LineRef}
    (seen : ref.SeenBy v) (other : w ≠ v) (f : Descriptor → Descriptor) :
    (d.updateLine ref f).vcpu? w = d.vcpu? w := by
  cases ref with
  | banked u line =>
      obtain rfl : u = v := seen
      rw [updateLine, vcpu?_updateVcpu, if_neg other.symm]
  | shared index => rfl

theorem own_updateInflight (d : Distributor) (u : Nat) {f : Inflight → Inflight}
    (keeps : ∀ list, (f list).privateEntries = list.privateEntries) (w : Nat) :
    ((d.updateInflight u f).vcpu? w).map Vcpu.own = (d.vcpu? w).map Vcpu.own := by
  rw [updateInflight, vcpu?_updateVcpu]
  split
  · rw [Option.map_map]
    refine congrArg (fun g => Option.map g _) (funext fun vcpu => ?_)
    simp only [Function.comp_apply, Vcpu.own, keeps]
  · rfl

/-- The line moves on or off the list of `u`, who sees it as `v` does. If the line is
private, then `u` is `v`, and not `w`; if it is shared, its number is no private one. -/
theorem own_updateLine_updateInflight (d : Distributor) {u v w : Nat} {ref : LineRef}
    (seen : ref.SeenBy v) (held : ref.SeenBy u) (other : w ≠ v) (f : Descriptor → Descriptor)
    {g : Inflight → Inflight}
    (keeps : linesPerRank ≤ ref.number → ∀ list, (g list).privateEntries = list.privateEntries) :
    (((d.updateLine ref f).updateInflight u g).vcpu? w).map Vcpu.own =
      (d.vcpu? w).map Vcpu.own := by
  rw [← d.vcpu?_updateLine_of_seenBy seen other f]
  cases ref with
  | banked x line =>
      obtain rfl : x = v := seen
      obtain rfl : x = u := held
      rw [updateInflight, vcpu?_updateVcpu, if_neg other.symm]
  | shared index =>
      exact own_updateInflight _ u (keeps (Nat.le_add_right linesPerRank index)) w

/-- What VCPU `w` can reach: its own state, and everything shared. -/
def reach (d : Distributor) (w : Nat) : Option Vcpu × Array Rank × Array Descriptor :=
  (d.vcpu? w, d.sharedRanks, d.sharedLines)

theorem reach_updateVcpu (d : Distributor) {v w : Nat} (other : w ≠ v) (f : Vcpu → Vcpu) :
    (d.updateVcpu v f).reach w = d.reach w := by
  simp only [reach, vcpu?_updateVcpu, if_neg other.symm]
  rfl

end Distributor

/-! ## Acts on one rank as a VCPU sees it -/

/-- The lines that a VCPU sees in a rank. -/
def LineRef.In (v : Nat) (rank? : Option Nat) (ref : LineRef) : Prop :=
  ref.SeenBy v ∧ rank? = some (rankOfLine ref.number)

namespace Act

/-- Acts of `v` on the registers and the lines of a rank. -/
def Within (v : Nat) (rank? : Option Nat) : Act → Prop
  | ask | note _ | call _ | control _ => True
  | store u index _ => u = v ∧ rank? = some index
  | touch ref _ | enable ref | retrigger _ ref | link _ ref _ | unlink _ ref => ref.In v rank?
  | _ => False

variable {a : Act} {d : Distributor} {v w : Nat} {rank? : Option Nat}

theorem Idles.within (idles : a.Idles) : a.Within v rank? := by
  cases a <;> trivial

theorem Enables.within {S : LineRef → Prop} (inside : ∀ ref, S ref → ref.In v rank?)
    (enables : a.Enables S) : a.Within v rank? := by
  cases a with
  | enable ref | retrigger holder ref | link u ref priority => exact inside ref enables
  | _ => trivial

theorem Disables.within {S : LineRef → Prop} (inside : ∀ ref, S ref → ref.In v rank?)
    (disables : a.Disables S) : a.Within v rank? := by
  cases a with
  | touch ref report => cases report <;> first | exact inside ref disables | exact disables.elim
  | unlink holder ref => exact inside ref disables
  | _ => trivial

/-- Another VCPU keeps what is about its private lines. -/
theorem Within.own (within : a.Within v rank?) (consistent : Consistent d)
    (allowed : a.Allowed d) (other : w ≠ v) :
    ((a.apply d).vcpu? w).map Vcpu.own = (d.vcpu? w).map Vcpu.own := by
  cases a with
  | ask | note | call | control => rfl
  | store u index f =>
      obtain ⟨rfl, -⟩ := within
      cases index with
      | zero => rw [apply, Distributor.updateRank, Distributor.vcpu?_updateVcpu, if_neg other.symm]
      | succ index => rfl
  | touch | enable | retrigger =>
      exact congrArg _ (Distributor.vcpu?_updateLine_of_seenBy d within.1 other _)
  | link u ref priority =>
      obtain ⟨there, held, -⟩ := allowed
      obtain ⟨p, found⟩ := Option.isSome_iff_exists.1 there
      refine Distributor.own_updateLine_updateInflight d within.1 held other _ fun high => ?_
      rw [Distributor.descriptor_of_eq_some found, consistent.numbered found]
      exact Inflight.privateEntries_insert high priority
  | unlink holder ref =>
      have held := (consistent.owned (Distributor.descriptor?_of_owner allowed) allowed).1
      exact Distributor.own_updateLine_updateInflight d within.1 held other _
        Inflight.privateEntries_erase
  | keep | clear | allocate | release => exact within.elim

/-- Acts on private lines change nothing that another VCPU can reach. -/
theorem Within.reach (within : a.Within v rank?) (consistent : Consistent d)
    (allowed : a.Allowed d) (other : w ≠ v) (first : ∀ rank, rank? = some rank → rank = 0) :
    (a.apply d).reach w = d.reach w := by
  have own : ∀ {ref : LineRef}, ref.In v rank? → ∃ line, ref = .banked v line := by
    rintro (⟨u, line⟩ | index) ⟨seen, rank⟩
    · exact ⟨line, congrArg (LineRef.banked · line) seen⟩
    · have zero := first _ rank
      rw [LineRef.number, Distributor.rankOfLine_shared] at zero
      cases zero
  cases a with
  | ask | note | call | control => rfl
  | store u index f =>
      obtain ⟨rfl, rank⟩ := within
      obtain rfl := first index rank
      exact d.reach_updateVcpu other _
  | touch | enable | retrigger =>
      obtain ⟨line, rfl⟩ := own within
      exact d.reach_updateVcpu other _
  | link u ref priority =>
      obtain ⟨line, rfl⟩ := own within
      obtain rfl : v = u := allowed.2.1
      exact (Distributor.reach_updateVcpu _ other _).trans (d.reach_updateVcpu other _)
  | unlink holder ref =>
      obtain ⟨line, rfl⟩ := own within
      obtain rfl : v = holder :=
        (consistent.owned (Distributor.descriptor?_of_owner allowed) allowed).1
      exact (Distributor.reach_updateVcpu _ other _).trans (d.reach_updateVcpu other _)
  | keep | clear | allocate | release => exact within.elim

end Act

theorem Steps.own_of_within {σ : Type} {m m' : Machine σ} {v w : Nat} {rank? : Option Nat}
    (steps : Steps (Act.Within v rank?) m m') (consistent : Consistent m.dist) (other : w ≠ v) :
    (m'.dist.vcpu? w).map Vcpu.own = (m.dist.vcpu? w).map Vcpu.own := by
  refine (steps.kept (P := fun s => Consistent s.dist ∧
    (s.dist.vcpu? w).map Vcpu.own = (m.dist.vcpu? w).map Vcpu.own) ?_ ⟨consistent, rfl⟩).2
  rintro s a s' within step ⟨consistent, before⟩
  rw [step.dist]
  exact ⟨consistent.apply step.allowed, (within.own consistent step.allowed other).trans before⟩

theorem Steps.reach_of_within {σ : Type} {m m' : Machine σ} {v w : Nat} {rank? : Option Nat}
    (steps : Steps (Act.Within v rank?) m m') (consistent : Consistent m.dist) (other : w ≠ v)
    (first : ∀ rank, rank? = some rank → rank = 0) : m'.dist.reach w = m.dist.reach w := by
  refine (steps.kept (P := fun s => Consistent s.dist ∧ s.dist.reach w = m.dist.reach w) ?_
    ⟨consistent, rfl⟩).2
  rintro s a s' within step ⟨consistent, before⟩
  rw [step.dist]
  exact ⟨consistent.apply step.allowed,
    (within.reach consistent step.allowed other first).trans before⟩

/-! ## Accesses stay within the rank they address -/

theorem LineRef.Masked.inRank {v rank : Nat} {mask : Word} {ref : LineRef} (low : rank < 32)
    (masked : ref.Masked v mask rank) : ref.In v (some rank) := by
  obtain ⟨seen, number, -⟩ := (LineRef.masked_iff low).1 masked
  exact ⟨seen, congrArg some number.symm⟩

theorem LineRef.Changed.inRank {d : Distributor} {v position : Nat} {changed : Word → Word}
    {ref : LineRef} (low : rankIndex Bank.enable.words position < 32)
    (changes : ref.Changed d v position changed) :
    ref.In v (some (rankIndex Bank.enable.words position)) := by
  obtain ⟨rank, -, masked⟩ := changes
  exact masked.inRank low

namespace Machine

variable {σ : Type}

theorem within_writeBank (m : Machine σ) (v : Nat) (access : Access) (bank : Bank)
    (f : Word → Word) :
    Steps (Act.Within v (some (rankIndex bank.words access.position))) m
      (m.writeBank v access bank f).2 := by
  unfold writeBank
  simp only
  split
  · exact (steps_note m _ (by intros; simp)).mono fun a idle => idle.within
  · split
    · exact .refl m
    · exact .single (a := .store v _ _) ⟨trivial, rfl, (List.append_nil _).symm⟩ ⟨rfl, rfl⟩

variable [Host σ]

theorem within_writeRegister (m : Machine σ) {v : Nat} (access : Access) (value : Word)
    {register : Register} (present : (m.dist.vcpu? v).isSome = true)
    (plain : register ≠ .softwareInterrupt)
    (low : register = .setEnable ∨ register = .clearEnable →
      rankIndex Bank.enable.words access.position < 32) :
    Steps (Act.Within v (register.rank? access.position)) m
      (m.writeRegister v access value register).2 := by
  have takes := m.steps_writeRegister access value register present
  cases register with
  | setEnable =>
      refine takes.mono ?_
      rintro a (⟨f, rfl⟩ | enables)
      · exact ⟨rfl, rfl⟩
      · exact enables.within fun ref changed => changed.inRank (low (.inl rfl))
  | clearEnable =>
      refine takes.mono ?_
      rintro a (⟨f, rfl⟩ | disables)
      · exact ⟨rfl, rfl⟩
      · exact disables.within fun ref changed => changed.inRank (low (.inr rfl))
  | control =>
      refine takes.mono ?_
      rintro a (idle | ⟨enabled, rfl⟩)
      · exact idle.within
      · trivial
  | clearActive | priority => exact within_writeBank m v access _ _
  | targets | trigger =>
      unfold writeRegister
      simp only
      split
      · exact (steps_note m _ (by intros; simp)).mono fun a idle => idle.within
      · exact within_writeBank m v access _ _
  | softwareInterrupt => exact absurd rfl plain
  | _ => exact takes.mono fun a idle => Act.Idles.within idle

theorem within_write (m : Machine σ) (v offset : Nat) (width : Width) (value : Word)
    (plain : (Frame.group? offset).map (·.register) ≠ some .softwareInterrupt) :
    Steps (Act.Within v (Frame.rank? offset)) m (m.write v offset width value).2 := by
  have idles : ∀ {s : Machine σ}, Steps Act.Idles m s →
      Steps (Act.Within v (Frame.rank? offset)) m s := Steps.mono fun a idle => idle.within
  rcases m.write_cases v offset width value with
    ⟨-, -, still | decoded⟩ | ⟨present, group, accepts, reached⟩
  · rw [still]
    exact .refl m
  · rw [decoded]
    exact idles (steps_decode m v offset width)
  · have found := accepts.1
    have addressed : Frame.rank? offset = group.register.rank? (offset - group.first) := by
      rw [Frame.rank?, found, Option.bind_some]
    rw [found, Option.map_some, ne_eq, Option.some.injEq] at plain
    have noted := idles (steps_note m (.registerWritten v group.name (offset - group.first) value)
      (by intros; simp))
    rw [reached]
    refine noted.trans ?_
    rw [addressed]
    exact (within_writeRegister _ (group.access offset width false) value present plain
        (Frame.rankIndex_lt_of_enable found))

/-- An access stays within the rank that it addresses. -/
theorem within_access (m : Machine σ) {v : Nat} {access : Operation}
    (accessor : access.accessor? = some v)
    (plain : access.isWrite = true → access.register? m.dist.config ≠ some .softwareInterrupt) :
    Steps (Act.Within v (access.rank? m.dist.config)) m (m.perform access).2 := by
  cases access with
  | read u offset width signed =>
      exact (steps_read m u offset width signed).mono fun a idle => idle.within
  | readAt u address width signed =>
      exact (perform_steps m (.readAt u address width signed)).mono fun a idle =>
        Act.Idles.within idle
  | write u offset width value =>
      obtain rfl := Option.some.inj accessor
      exact within_write m u offset width value (plain rfl)
  | writeAt u address width value =>
      obtain rfl := Option.some.inj accessor
      show Steps _ m (m.writeAt u address width value).2
      unfold writeAt
      cases inside : m.dist.config.frameOffset address with
      | error error => exact .refl m
      | ok offset =>
          have named : (Operation.writeAt u address width value).offset? m.dist.config =
              some offset := by
            rw [Operation.offset?, inside]
            rfl
          rw [Operation.register?, named] at plain
          rw [Operation.rank?, named]
          exact within_write m u offset width value (plain rfl)
  | _ => cases accessor

/-- The guest of one VCPU reaches nothing private of another by an access that sends no
software interrupt. If the access addresses rank 0, or no rank, it leaves the other VCPU as
it is, and all shared registers and lines. -/
theorem access_isolated {config : Config} {host : σ} {m : Machine σ}
    (started : Machine.start config host = .ok m) (operations : List Operation) {v w : Nat}
    {access : Operation} (accessor : access.accessor? = some v)
    (plain : access.isWrite = true → access.register? config ≠ some .softwareInterrupt)
    (other : w ≠ v) {state : Vcpu} (there : (m.run operations).dist.vcpu? w = some state) :
    let before := (m.run operations).dist
    let after := ((m.run operations).perform access).2.dist
    (∃ state', after.vcpu? w = some state' ∧ state'.rank = state.rank ∧
        state'.lines = state.lines ∧
        state'.inflight.privateEntries = state.inflight.privateEntries) ∧
      ((∀ rank, access.rank? config = some rank → rank = 0) →
        after.vcpu? w = some state ∧ after.sharedRanks = before.sharedRanks ∧
          after.sharedLines = before.sharedLines) := by
  intro before after
  have settings : before.config = config := congrArg (·.1) (shape_run started operations)
  have consistent : Consistent before := consistent_run started operations
  have steps := (m.run operations).within_access accessor (by rwa [settings])
  rw [settings] at steps
  constructor
  · have own := steps.own_of_within consistent other
    rw [there] at own
    obtain ⟨state', there', same⟩ := Option.map_eq_some_iff.1 own
    simp only [Vcpu.own, Prod.mk.injEq] at same
    exact ⟨state', there', same⟩
  · intro first
    have reach := steps.reach_of_within consistent other first
    simp only [Distributor.reach, Prod.mk.injEq, there] at reach
    exact reach

/-- Lines 5, 40 and 7 are inflight on VCPU 1. VCPU 0 disables the shared line 40, which it
had enabled, and then its own line 5. -/
theorem access_isolated_disabled :
    let m : Machine SteadyHost := .fresh (.forHardware 2 64) { up := [0, 1] }
    let raised : List Operation := [.initVcpu 0, .initVcpu 1, .write 0 0x104 .word 0x100,
      .write 0 0x100 .word 0x20, .inject 1 5, .inject 1 40, .inject 1 7]
    let shared : Operation := .write 0 0x184 .word 0x100
    let own : Operation := .write 0 0x180 .word 0x20
    ((m.run raised).dist.inflight? 1).map (·.lines) = some [5, 40, 7] ∧
      (((m.run raised).perform shared).2.dist.inflight? 1).map (·.lines) = some [5, 7] ∧
      (((m.run raised).perform shared).2.dist.vcpu? 1).map (·.inflight.privateEntries) =
        ((m.run raised).dist.vcpu? 1).map (·.inflight.privateEntries) ∧
      ((m.run raised).perform own).2.dist.vcpu? 1 = (m.run raised).dist.vcpu? 1 := by
  intro m raised shared own
  have started : Machine.start (.forHardware 2 64) ({ up := [0, 1] } : SteadyHost) = .ok m := rfl
  have present : ((m.run raised).dist.vcpu? 1).isSome = true := by decide +kernel
  obtain ⟨state, there⟩ := Option.isSome_iff_exists.1 present
  obtain ⟨⟨state', there', -, -, entries⟩, -⟩ := access_isolated started raised
    (show shared.accessor? = some 0 from rfl) (by decide) (by decide) there
  obtain ⟨-, whole⟩ := access_isolated started raised
    (show own.accessor? = some 0 from rfl) (by decide) (by decide) there
  refine ⟨by decide +kernel, by decide +kernel, ?_, ?_⟩
  · rw [there, there', Option.map_some, Option.map_some, entries]
  · rw [there]
    exact (whole (by decide)).1

end Machine

end VirtualGic
