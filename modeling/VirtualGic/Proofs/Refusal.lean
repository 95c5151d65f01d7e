/-
# Proofs.Refusal — what fails, and what a failure leaves behind

An operation that fails has changed nothing and called nobody. There is one exception: an
access of a width that its register group does not accept ends the domain, by one call, and
this call is made for nothing else. `refuses_run` says so for every operation after every
history, and says exactly which accesses of a VCPU with state fail, and how.

`Tidy` is an outcome that keeps to this. For accesses it comes from three cases that exclude
each other: the offset is in no group, its group does not accept the width, or the access
reaches the register of its group (`Frame.cases`).
-/
import VirtualGic.Proofs.Calls
import VirtualGic.Proofs.Faultless

namespace VirtualGic

set_option autoImplicit false

/-- The calls that go with a failure. -/
def Failure.calls : Failure → List Call
  | .refused (.badWidth ..) => [.crash]
  | _ => []

theorem Failure.crash_mem_calls {failure : Failure} :
    Call.crash ∈ failure.calls ↔ ∃ offset width, failure = .refused (.badWidth offset width) := by
  constructor
  · intro member
    unfold calls at member
    split at member
    · exact ⟨_, _, rfl⟩
    · cases member
  · rintro ⟨offset, width, rfl⟩
    exact List.mem_singleton.2 rfl

/-! ## Which accesses fail -/

namespace Frame

/-- The register group at the offset does not accept the width. -/
def Misfits (offset : Nat) (width : Width) : Prop :=
  ∃ group ∈ groups, group.contains offset = true ∧ group.widths.allow width = false

/-- No register group is at the offset, or one of these names that accepts the width. -/
def Unanswered (names : List String) (offset : Nat) (width : Width) : Prop :=
  (∀ group ∈ groups, group.contains offset = false) ∨
    ∃ group ∈ groups, group.contains offset = true ∧ group.widths.allow width = true ∧
      group.name ∈ names

/-- The groups that leave reads to the trap layer. -/
def unreadable : List String :=
  ["ICPIDR2"]

/-- The groups that leave writes to the trap layer. -/
def unwritable : List String :=
  ["ISPENDR", "ICPENDR", "CPENDSGIR", "SPENDSGIR"]

theorem unreadable_iff : ∀ group ∈ groups,
    group.name ∈ unreadable ↔ group.register ∈ Register.unreadable := by
  decide

theorem unwritable_iff : ∀ group ∈ groups,
    group.name ∈ unwritable ↔ group.register ∈ Register.unwritable := by
  decide

variable {offset : Nat} {width : Width} {names : List String}

/-- An offset is in no group, in one that does not accept the width, or in one that does. -/
theorem cases (offset : Nat) (width : Width) :
    (∀ group ∈ groups, group.contains offset = false) ∧ group? offset = none ∨
      (∃ group, group? offset = some group ∧ group.widths.allow width = false) ∧
        Misfits offset width ∨
      ∃ group : Group, group.Accepts offset width := by
  cases found : group? offset with
  | none =>
      refine .inl ⟨fun group member => ?_, rfl⟩
      exact Bool.eq_false_iff.2 (List.find?_eq_none.1 found group member)
  | some group =>
      obtain ⟨member, inside⟩ := group?_eq_some_iff.1 found
      cases allowed : group.widths.allow width with
      | false => exact .inr (.inl ⟨⟨group, rfl, allowed⟩, group, member, inside, allowed⟩)
      | true => exact .inr (.inr ⟨group, found, allowed⟩)

theorem Misfits.not_unanswered (misfits : Misfits offset width) :
    ¬ Unanswered names offset width := by
  obtain ⟨group, member, inside, refused⟩ := misfits
  rintro (unknown | ⟨other, listed, here, allowed, -⟩)
  · rw [unknown group member] at inside
    cases inside
  · rw [eq_of_contains member listed inside here, allowed] at refused
    cases refused

/-- Where an access is accepted, only the name of the group matters. -/
theorem unanswered_iff_of_accepts {group : Group} (accepts : group.Accepts offset width) :
    Unanswered names offset width ↔ group.name ∈ names := by
  obtain ⟨found, allowed⟩ := accepts
  obtain ⟨member, inside⟩ := group?_eq_some_iff.1 found
  constructor
  · rintro (unknown | ⟨other, listed, here, -, named⟩)
    · rw [unknown group member] at inside
      cases inside
    · rwa [eq_of_contains member listed inside here]
  · exact fun named => .inr ⟨group, member, inside, allowed, named⟩

theorem not_misfits_of_accepts {group : Group} (accepts : group.Accepts offset width) :
    ¬ Misfits offset width := by
  rintro ⟨other, listed, here, refused⟩
  obtain ⟨member, inside⟩ := group?_eq_some_iff.1 accepts.1
  rw [← eq_of_contains member listed inside here, accepts.2] at refused
  cases refused

end Frame

/-- The answer to an access is what becomes of it: it misfits, it is left to the trap layer,
or it succeeds. -/
structure Judged (answer : Result Answer) (offset : Nat) (width : Width) (names : List String) :
    Prop where
  badWidth : answer = .error (.refused (.badWidth offset width)) ↔ Frame.Misfits offset width
  unhandled : answer = .error (.refused (.unhandled offset)) ↔ Frame.Unanswered names offset width
  answered : (∃ value, answer = .ok value) ↔
    ¬ Frame.Misfits offset width ∧ ¬ Frame.Unanswered names offset width

namespace Judged

variable {offset : Nat} {width : Width} {names : List String}

theorem of_misfits (misfits : Frame.Misfits offset width) :
    Judged (.error (.refused (.badWidth offset width))) offset width names := by
  refine ⟨⟨fun _ => misfits, fun _ => rfl⟩, ⟨fun same => ?_, fun unanswered => ?_⟩,
    ⟨fun ⟨_, same⟩ => ?_, fun both => absurd misfits both.1⟩⟩
  · cases same
  · exact absurd unanswered misfits.not_unanswered
  · cases same

theorem of_unanswered (unanswered : Frame.Unanswered names offset width) :
    Judged (.error (.refused (.unhandled offset))) offset width names := by
  refine ⟨⟨fun same => ?_, fun misfits => absurd unanswered misfits.not_unanswered⟩,
    ⟨fun _ => unanswered, fun _ => rfl⟩,
    ⟨fun ⟨_, same⟩ => ?_, fun both => absurd unanswered both.2⟩⟩
  · cases same
  · cases same

theorem of_ok {group : Group} (accepts : group.Accepts offset width)
    (handled : ¬ Frame.Unanswered names offset width) (value : Answer) :
    Judged (.ok value) offset width names := by
  have fits := Frame.not_misfits_of_accepts accepts
  refine ⟨⟨fun same => ?_, fun misfits => absurd misfits fits⟩,
    ⟨fun same => ?_, fun unanswered => absurd unanswered handled⟩,
    ⟨fun _ => ⟨fits, handled⟩, fun _ => ⟨value, rfl⟩⟩⟩
  · cases same
  · cases same

end Judged

/-! ## Tidy outcomes -/

namespace Machine

variable {σ : Type}

/-- An outcome that, if it is a failure, has left the distributor as it was and made no call
but those of the failure, and that otherwise has not ended the domain. -/
structure Tidy {α : Type} (m : Machine σ) (outcome : Result α × Machine σ) : Prop where
  failed : ∀ failure, outcome.1 = .error failure →
    outcome.2.dist = m.dist ∧ outcome.2.calls = m.calls ++ failure.calls
  spared : ∀ value, outcome.1 = .ok value → Call.crash ∉ outcome.2.calls.drop m.calls.length

namespace Tidy

variable {α β : Type} {m m' : Machine σ} {outcome : Result α × Machine σ}

theorem of_ok [Host σ] {C : Call → Prop} {value : α} (answered : outcome.1 = .ok value)
    (makes : Makes C m outcome.2) (spares : ¬ C .crash) : Tidy m outcome := by
  refine ⟨fun failure same => ?_, fun _ _ member => spares (makes.sort_of_mem member)⟩
  rw [answered] at same
  cases same

theorem of_failure {failure : Failure} (dist : m'.dist = m.dist)
    (calls : m'.calls = m.calls ++ failure.calls) :
    Tidy m ((.error failure, m') : Result α × Machine σ) := by
  refine ⟨?_, by rintro _ ⟨⟩⟩
  rintro _ ⟨⟩
  exact ⟨dist, calls⟩

theorem refused {error : Error} (quiet : (Failure.refused error).calls = [])
    (dist : m'.dist = m.dist) (calls : m'.calls = m.calls) :
    Tidy m ((.error (.refused error), m') : Result α × Machine σ) :=
  of_failure dist (by rw [quiet, List.append_nil, calls])

theorem answer (tidy : Tidy m outcome) (f : α → Answer) : Tidy m (Machine.answer f outcome) := by
  obtain ⟨result, after⟩ := outcome
  cases result with
  | ok value => exact ⟨by rintro _ ⟨⟩, fun _ _ => tidy.spared value rfl⟩
  | error failure =>
      refine ⟨?_, by rintro _ ⟨⟩⟩
      rintro _ ⟨⟩
      exact tidy.failed failure rfl

theorem of_same (dist : m'.dist = m.dist) (calls : m'.calls = m.calls) (tidy : Tidy m' outcome) :
    Tidy m outcome := by
  refine ⟨fun failure same => ?_, fun value same => calls ▸ tidy.spared value same⟩
  rw [← dist, ← calls]
  exact tidy.failed failure same

end Tidy

end Machine

namespace Distributor

variable {d : Distributor} {v line : Nat} {error : Error}

theorem quiet_of_requireVcpu (refused : d.requireVcpu v = .error error) :
    (Failure.refused error).calls = [] := by
  unfold requireVcpu at refused
  split at refused
  · cases refused
    rfl
  · cases refused

theorem quiet_of_resolve (refused : d.resolve v line = .error error) :
    (Failure.refused error).calls = [] := by
  unfold resolve at refused
  split at refused
  · cases refused
    rfl
  · split at refused
    · cases refused
      rfl
    · cases refused

end Distributor

theorem Config.quiet_of_frameOffset {config : Config} {address : BitVec 64} {error : Error}
    (refused : config.frameOffset address = .error error) :
    (Failure.refused error).calls = [] := by
  unfold frameOffset at refused
  split at refused
  · cases refused
  · cases refused
    rfl

namespace Machine

variable {σ : Type} [Host σ] {m : Machine σ}

/-! ## Accesses -/

section Accesses

variable {v offset : Nat} {width : Width}

theorem decode_of_unknown (unknown : Frame.group? offset = none) :
    m.decode v offset width = (.error (.unhandled offset), m.note (.offsetUnknown v offset)) := by
  simp only [decode, unknown]

theorem decode_of_misfits {group : Group} (found : Frame.group? offset = some group)
    (refused : group.widths.allow width = false) :
    m.decode v offset width = (.error (.badWidth offset width),
      (m.note (.widthRefused v width group.name offset)).call .crash) := by
  simp only [decode, found, refused, Bool.false_eq_true, if_false]

/-- What becomes of a read. -/
theorem read_judged (bounded : m.dist.Bounded) (present : (m.dist.vcpu? v).isSome = true)
    (offset : Nat) (width : Width) (signed : Bool) :
    Tidy m (m.read v offset width signed) ∧
      Judged (m.perform (.read v offset width signed)).1 offset width Frame.unreadable := by
  obtain ⟨vcpu, there⟩ := Option.isSome_iff_exists.1 present
  have required := Distributor.requireVcpu_eq_ok_iff.2 there
  rcases Frame.cases offset width with
    ⟨outside, unknown⟩ | ⟨⟨group, found, refused⟩, misfits⟩ | ⟨group, accepts⟩
  · have outcome : m.read v offset width signed =
        (.error (.refused (.unhandled offset)), m.note (.offsetUnknown v offset)) := by
      simp only [read, required, decode_of_unknown unknown]
    rw [perform, outcome]
    exact ⟨.refused rfl rfl (m.calls_note _), .of_unanswered (.inl outside)⟩
  · have outcome : m.read v offset width signed =
        (.error (.refused (.badWidth offset width)),
          (m.note (.widthRefused v width group.name offset)).call .crash) := by
      simp only [read, required, decode_of_misfits found refused]
    rw [perform, outcome]
    exact ⟨.of_failure rfl (by rw [calls_call, calls_note]; rfl), .of_misfits misfits⟩
  · have member := (Frame.group?_eq_some_iff.1 accepts.1).1
    have named := (Frame.unanswered_iff_of_accepts accepts).trans
      (Frame.unreadable_iff group member)
    rcases m.dist.readRegister_cases bounded present accepts signed with
      ⟨unreadable, answered⟩ | ⟨readable, value, answered⟩
    · have outcome : m.read v offset width signed =
          (.error (.refused (.unhandled offset)), m.note (.readUnhandled v offset)) := by
        simp only [Group.access] at answered
        simp only [read, required, decode_of_accepts accepts, answered]
      rw [perform, outcome]
      exact ⟨.refused rfl rfl (m.calls_note _), .of_unanswered (named.2 unreadable)⟩
    · have outcome : m.read v offset width signed =
          (.ok value, m.note (.registerRead v group.name (offset - group.first) value)) := by
        simp only [Group.access] at answered
        simp only [read, required, decode_of_accepts accepts, answered]
      rw [perform, outcome]
      exact ⟨.of_ok (C := fun _ => False) rfl (.note m _) id,
        .of_ok accepts (fun unanswered => readable (named.1 unanswered)) _⟩

theorem not_mayCall_crash (register : Register) : ¬ register.MayCall .crash := by
  cases register <;> exact id

theorem writeRegister_of_unwritable {access : Access} {value : Word} {register : Register}
    (unwritable : register ∈ Register.unwritable) :
    m.writeRegister v access value register = m.refuseWrite v access value := by
  cases register <;> first | rfl | exact absurd unwritable (by decide)

/-- What becomes of a write. -/
theorem write_judged (bounded : m.dist.Bounded) (present : (m.dist.vcpu? v).isSome = true)
    (offset : Nat) (width : Width) (value : Word) :
    Tidy m (m.write v offset width value) ∧
      Judged (m.perform (.write v offset width value)).1 offset width Frame.unwritable := by
  obtain ⟨vcpu, there⟩ := Option.isSome_iff_exists.1 present
  have required := Distributor.requireVcpu_eq_ok_iff.2 there
  rcases Frame.cases offset width with
    ⟨outside, unknown⟩ | ⟨⟨group, found, refused⟩, misfits⟩ | ⟨group, accepts⟩
  · have outcome : m.write v offset width value =
        (.error (.refused (.unhandled offset)), m.note (.offsetUnknown v offset)) := by
      simp only [write, required, decode_of_unknown unknown]
    rw [perform, outcome]
    exact ⟨.refused rfl rfl (m.calls_note _), .of_unanswered (.inl outside)⟩
  · have outcome : m.write v offset width value =
        (.error (.refused (.badWidth offset width)),
          (m.note (.widthRefused v width group.name offset)).call .crash) := by
      simp only [write, required, decode_of_misfits found refused]
    rw [perform, outcome]
    exact ⟨.of_failure rfl (by rw [calls_call, calls_note]; rfl), .of_misfits misfits⟩
  · have member := (Frame.group?_eq_some_iff.1 accepts.1).1
    have named := (Frame.unanswered_iff_of_accepts accepts).trans
      (Frame.unwritable_iff group member)
    rw [perform, write_of_accepts present accepts]
    generalize noted : m.note (.registerWritten v group.name (offset - group.first) value) = s
    have dist : s.dist = m.dist := by rw [← noted, dist_note]
    have calls : s.calls = m.calls := by rw [← noted, calls_note]
    rcases writeRegister_cases (dist ▸ bounded) (dist ▸ present) accepts false value with
      ⟨unwritable, -⟩ | ⟨writable, answered⟩
    · rw [writeRegister_of_unwritable unwritable, refuseWrite]
      exact ⟨.refused rfl dist ((s.calls_note _).trans calls),
        .of_unanswered (named.2 unwritable)⟩
    · have makes : Makes group.register.MayCall m s := noted ▸ .note m _
      refine ⟨.of_ok answered (makes.trans (makes_writeRegister s v _ value _))
        (not_mayCall_crash _), ?_⟩
      rw [acknowledge, Machine.answer, answered]
      exact .of_ok accepts (fun unanswered => writable (named.1 unanswered)) _

theorem tidy_read (bounded : m.dist.Bounded) (v offset : Nat) (width : Width) (signed : Bool) :
    Tidy m (m.read v offset width signed) := by
  cases required : m.dist.requireVcpu v with
  | error error =>
      rw [read, required]
      exact .refused (Distributor.quiet_of_requireVcpu required) rfl rfl
  | ok vcpu =>
      have present := Distributor.present_of_requireVcpu required
      exact (read_judged bounded present offset width signed).1

theorem tidy_write (bounded : m.dist.Bounded) (v offset : Nat) (width : Width) (value : Word) :
    Tidy m (m.write v offset width value) := by
  cases required : m.dist.requireVcpu v with
  | error error =>
      rw [write, required]
      exact .refused (Distributor.quiet_of_requireVcpu required) rfl rfl
  | ok vcpu =>
      have present := Distributor.present_of_requireVcpu required
      exact (write_judged bounded present offset width value).1

end Accesses

/-! ## The other operations -/

theorem tidy_inject (m : Machine σ) (v line : Nat) : Tidy m (m.inject v line) := by
  have makes := makes_inject m v line
  unfold inject injectAmid at makes ⊢
  split
  · rename_i resolved
    exact .refused (Distributor.quiet_of_resolve resolved) rfl rfl
  · rename_i resolved
    rw [resolved] at makes
    exact .of_ok rfl makes id

theorem tidy_injectSpi (m : Machine σ) (line : Nat) : Tidy m (m.injectSpi line) := by
  unfold injectSpi
  split
  · exact .refused rfl rfl rfl
  · split
    · rename_i required
      exact .refused (Distributor.quiet_of_requireVcpu required) rfl rfl
    · split
      · exact .refused rfl rfl rfl
      · split
        · exact .of_failure rfl (List.append_nil _).symm
        · exact .of_same (dist_firstOnline m _) (calls_firstOnline m _) (tidy_inject _ _ line)

theorem tidy_dispatchSoftware (bounded : m.dist.Bounded) (v : Nat) (value : Word) :
    Tidy m (m.dispatchSoftware v value) := by
  unfold dispatchSoftware
  split
  · rename_i required
    exact .refused (Distributor.quiet_of_requireVcpu required) rfl rfl
  · rename_i vcpu required
    have present := Distributor.present_of_requireVcpu required
    exact .of_ok (sendSoftware_ok bounded present value) (makes_sendSoftware m v value) id

theorem tidy_enableLines (m : Machine σ) (v : Nat) (mask : Word) (rank : Nat) :
    Tidy m (m.enableLines v mask rank) := by
  have makes := makes_enableMask m v mask rank
  unfold enableLines
  split
  · rename_i required
    exact .refused (Distributor.quiet_of_requireVcpu required) rfl rfl
  · unfold enableMask at makes ⊢
    split
    · exact .of_failure rfl (List.append_nil _).symm
    · rename_i fits
      rw [fits] at makes
      exact .of_ok rfl makes id

theorem tidy_disableLines (m : Machine σ) (v : Nat) (mask : Word) (rank : Nat) :
    Tidy m (m.disableLines v mask rank) := by
  have makes := makes_disableMask m v mask rank
  unfold disableLines disableLinesAmid
  split
  · rename_i required
    exact .refused (Distributor.quiet_of_requireVcpu required) rfl rfl
  · unfold disableMask at makes ⊢
    split
    · exact .of_failure rfl (List.append_nil _).symm
    · rename_i fits
      rw [fits] at makes
      exact .of_ok rfl makes id

theorem tidy_clearPending (m : Machine σ) (v : Nat) : Tidy m (m.clearPending v) := by
  have makes := makes_clearPending m v
  unfold clearPending at makes ⊢
  split
  · rename_i required
    exact .refused (Distributor.quiet_of_requireVcpu required) rfl rfl
  · rename_i required
    rw [required] at makes
    exact .of_ok rfl makes (by simp)

theorem tidy_freeVcpu (m : Machine σ) (v : Nat) : Tidy m (m.freeVcpu v) := by
  have makes := makes_freeVcpu m v
  have cleared := tidy_clearPending m v
  unfold freeVcpu at makes ⊢
  cases done : m.clearPending v with
  | mk answer after =>
      rw [done] at makes cleared
      cases answer with
      | error failure =>
          obtain ⟨same, called⟩ := cleared.failed failure rfl
          exact .of_failure same called
      | ok _ => exact .of_ok rfl makes (by simp)

theorem tidy_retire (m : Machine σ) (v line : Nat) : Tidy m (m.retire v line) := by
  cases resolved : m.dist.resolve v line with
  | error error =>
      rw [retire, resolved]
      exact .refused (Distributor.quiet_of_resolve resolved) rfl rfl
  | ok ref =>
      have answered : ∃ kept, (m.retire v line).1 = .ok kept := by
        rw [retire_of_resolve resolved]
        split
        · exact ⟨false, rfl⟩
        · split
          · exact ⟨true, rfl⟩
          · exact ⟨false, rfl⟩
      obtain ⟨kept, answered⟩ := answered
      exact .of_ok answered (makes_retire m v line) (by rintro ⟨priority, ⟨⟩⟩)

theorem tidy_initVcpu (m : Machine σ) (v : Nat) : Tidy m (m.initVcpu v) := by
  unfold initVcpu
  split
  · exact .of_failure rfl (List.append_nil _).symm
  · split
    · exact .refused rfl rfl rfl
    · exact .refused rfl rfl rfl
    · split
      · exact .of_failure rfl (List.append_nil _).symm
      · exact .of_ok (C := fun _ => False) rfl ((Makes.modify m _).trans (.note _ _)) id

theorem tidy_updateStatus (f : Descriptor → Descriptor) (v line : Nat) (m : Machine σ) :
    Tidy m (m.updateStatus f v line) := by
  unfold updateStatus
  split
  · rename_i resolved
    exact .refused (Distributor.quiet_of_resolve resolved) rfl rfl
  · exact .of_ok (C := fun _ => False) rfl (.quiet rfl rfl) id

theorem tidy_question {α : Type} {result : Except Error α}
    (quiet : ∀ error, result = .error error → (Failure.refused error).calls = []) :
    Tidy m (result.mapError .refused, m) := by
  cases result with
  | ok value => exact .of_ok (C := fun _ => False) rfl (.refl m) id
  | error error => exact .refused (quiet error rfl) rfl rfl

/-- Every operation leaves as much behind as it should if it fails. -/
theorem tidy_perform (bounded : m.dist.Bounded) (operation : Operation) :
    Tidy m (m.perform operation) := by
  cases operation with
  | initVcpu v => exact (tidy_initVcpu m v).answer _
  | freeVcpu v => exact (tidy_freeVcpu m v).answer _
  | read v offset width signed => exact (tidy_read bounded v offset width signed).answer _
  | write v offset width value => exact (tidy_write bounded v offset width value).answer _
  | readAt v address width signed =>
      refine Tidy.answer ?_ _
      unfold readAt
      split
      · rename_i missed
        exact .refused (Config.quiet_of_frameOffset missed) rfl rfl
      · exact tidy_read bounded v _ width signed
  | writeAt v address width value =>
      refine Tidy.answer ?_ _
      unfold writeAt
      split
      · rename_i missed
        exact .refused (Config.quiet_of_frameOffset missed) rfl rfl
      · exact tidy_write bounded v _ width value
  | inject v line => exact (tidy_inject m v line).answer _
  | injectSpi line => exact (tidy_injectSpi m line).answer _
  | dispatchSoftware v value => exact (tidy_dispatchSoftware bounded v value).answer _
  | enableLines v mask rank => exact (tidy_enableLines m v mask rank).answer _
  | disableLines v mask rank => exact (tidy_disableLines m v mask rank).answer _
  | clearPending v => exact (tidy_clearPending m v).answer _
  | setVisible v line visible => exact (tidy_updateStatus _ v line m).answer _
  | setActive v line active => exact (tidy_updateStatus _ v line m).answer _
  | retire v line => exact (tidy_retire m v line).answer _
  | routePhysical v line irq =>
      refine Tidy.answer ?_ _
      unfold routePhysical
      split
      · rename_i resolved
        exact .refused (Distributor.quiet_of_resolve resolved) rfl rfl
      · exact .of_ok (C := fun _ => False) rfl ((Makes.modify m _).trans (.note _ _)) id
  | unroutePhysical v line =>
      refine Tidy.answer ?_ _
      unfold unroutePhysical
      split
      · rename_i resolved
        exact .refused (Distributor.quiet_of_resolve resolved) rfl rfl
      · exact .of_ok (C := fun _ => False) rfl (.quiet rfl rfl) id
  | inflightLines v =>
      refine (tidy_question fun error refused => ?_).answer _
      rw [Distributor.inflightLines] at refused
      cases required : m.dist.requireVcpu v with
      | ok vcpu =>
          rw [required] at refused
          cases refused
      | error other =>
          rw [required] at refused
          cases refused
          exact Distributor.quiet_of_requireVcpu required
  | pendingStatus v line =>
      refine (tidy_question fun error refused => ?_).answer _
      rw [Distributor.statusOf] at refused
      cases resolved : m.dist.resolve v line with
      | ok ref =>
          rw [resolved] at refused
          cases refused
      | error other =>
          rw [resolved] at refused
          cases refused
          exact Distributor.quiet_of_resolve resolved

end Machine

/-! ## Every history -/

/-- The operations by which a guest accesses the frame. -/
def Operation.isAccess : Operation → Bool
  | .read .. | .write .. | .readAt .. | .writeAt .. => true
  | _ => false

theorem Operation.isAccess_of_mayCall_crash {operation : Operation}
    (may : operation.MayCall .crash) : operation.isAccess = true := by
  cases operation with
  | read | write | readAt | writeAt => rfl
  | clearPending | freeVcpu => cases may
  | retire =>
      obtain ⟨priority, same⟩ := may
      cases same
  | _ => exact may.elim

/-- What fails, and what a failure leaves behind. -/
structure Machine.Refuses {σ : Type} [Host σ] (m : Machine σ) : Prop where
  /-- A failed operation has changed nothing and made no call, but for the one that ends the
  domain after an access of a refused width. -/
  unchanged : ∀ operation failure, (m.perform operation).1 = .error failure →
    (m.perform operation).2.dist = m.dist ∧
      (m.perform operation).2.calls = m.calls ++ failure.calls
  /-- The domain is ended by accesses of a refused width and nothing else. -/
  crash : ∀ operation, Call.crash ∈ (m.perform operation).2.calls.drop m.calls.length ↔
    operation.isAccess = true ∧
      ∃ offset width, (m.perform operation).1 = .error (.refused (.badWidth offset width))
  /-- The reads that fail. -/
  read : ∀ v offset width signed, (m.dist.vcpu? v).isSome = true →
    Judged (m.perform (.read v offset width signed)).1 offset width ["ICPIDR2"]
  /-- The writes that fail. -/
  write : ∀ v offset width value, (m.dist.vcpu? v).isSome = true →
    Judged (m.perform (.write v offset width value)).1 offset width
      ["ISPENDR", "ICPENDR", "CPENDSGIR", "SPENDSGIR"]

namespace Machine

variable {σ : Type} [Host σ]

/-- After every history, failures leave nothing behind and have their reasons. -/
theorem refuses_run {config : Config} {host : σ} {m : Machine σ}
    (started : Machine.start config host = .ok m) (operations : List Operation) :
    (m.run operations).Refuses := by
  have bounded := bounded_run started operations
  generalize m.run operations = s at bounded ⊢
  refine ⟨fun operation => (tidy_perform bounded operation).failed, fun operation => ?_,
    fun v offset width signed present => (read_judged bounded present offset width signed).2,
    fun v offset width value present => (write_judged bounded present offset width value).2⟩
  have tidy := tidy_perform bounded operation
  have accesses : Call.crash ∈ (s.perform operation).2.calls.drop s.calls.length →
      operation.isAccess = true := fun made =>
    Operation.isAccess_of_mayCall_crash ((s.perform_makes operation).sort_of_mem made)
  have failed : ∀ failure, (s.perform operation).1 = .error failure →
      (Call.crash ∈ (s.perform operation).2.calls.drop s.calls.length ↔
        Call.crash ∈ failure.calls) := by
    intro failure answer
    rw [(tidy.failed failure answer).2, List.drop_left]
  constructor
  · intro made
    refine ⟨accesses made, ?_⟩
    cases answer : (s.perform operation).1 with
    | ok value => exact absurd made (tidy.spared value answer)
    | error failure =>
        obtain ⟨offset, width, rfl⟩ := Failure.crash_mem_calls.1 ((failed failure answer).1 made)
        exact ⟨offset, width, rfl⟩
  · rintro ⟨-, offset, width, answer⟩
    exact (failed _ answer).2 (List.mem_singleton.2 rfl)

/-- A byte of the enable bitmap ends the domain, with line 5 in delivery. The last byte of
the trigger registers is in a group, and the next one in none. -/
theorem refuses_run_byte :
    let m : Machine SteadyHost := .fresh (.forGuest 2) { up := [0] }
    let s := m.run [.initVcpu 0, .write 0 0x100 .word 0x20, .inject 0 5]
    s.Refuses ∧ (s.perform (.read 0 0x103 .byte false)).2.dist = s.dist ∧
      (s.perform (.read 0 0x103 .byte false)).2.calls = s.calls ++ [.crash] ∧
      (∃ value, (s.perform (.read 0 0xcff .word false)).1 = .ok value) ∧
      (s.perform (.write 0 0xd00 .word 1)).1 = .error (.refused (.unhandled 0xd00)) := by
  intro m s
  have started : Machine.start (.forGuest 2) ({ up := [0] } : SteadyHost) = .ok m := rfl
  have refuses : s.Refuses :=
    refuses_run started [.initVcpu 0, .write 0 0x100 .word 0x20, .inject 0 5]
  have present : (s.dist.vcpu? 0).isSome = true := by decide +kernel
  have misfits : Frame.Misfits 0x103 .byte :=
    ⟨⟨"ISENABLER", "ISENABLER", 0x100, 0x17c, .wordOnly, .setEnable⟩, by decide, rfl, rfl⟩
  have refused := (refuses.read 0 0x103 .byte false present).badWidth.2 misfits
  obtain ⟨same, called⟩ := refuses.unchanged _ _ refused
  have fits : Group.Accepts ⟨"ICFGR", "ICFGR", 0xc00, 0xcfc, .wordOnly, .trigger⟩ 0xcff .word :=
    ⟨rfl, rfl⟩
  have reads : ¬ Frame.Unanswered ["ICPIDR2"] 0xcff .word := fun unanswered =>
    absurd ((Frame.unanswered_iff_of_accepts fits).1 unanswered) (by decide)
  have answered := (refuses.read 0 0xcff .word false present).answered.2
    ⟨Frame.not_misfits_of_accepts fits, reads⟩
  have outside : ∀ group ∈ Frame.groups, group.contains 0xd00 = false := by decide
  have unhandled := (refuses.write 0 0xd00 .word 1 present).unhandled.2 (.inl outside)
  exact ⟨refuses, same, called, answered, unhandled⟩

end Machine

end VirtualGic
