/-
# Proofs.Waiting — an accepted injection is not lost

An injection is accepted (`Accepts`) when the line is put on a list or raised again on
the VCPU that holds it. From then on the line waits (`Waits`): it is on that list and
marked as raised. `waits_until_dropped` says that it waits until an operation drops it,
and `Operation.Drops` lists the operations that do: entering a list register, disabling
the line, dropping what is inflight on its holder, and completing it while disabled. Only
operations that are carried out count, and of the writes only those that clear a bit: a
refused operation drops nothing, nor does a write to bits that are clear already.

The last of these is easily overlooked. A completion keeps a line that was raised again
only if the line is enabled; in `not_waits_until_withdrawn` a line is raised while it is
disabled, and is gone after its completion.
-/
import VirtualGic.Proofs.Agreement

namespace VirtualGic

set_option autoImplicit false

/-- The line is on the list of `holder` and raised. -/
def Distributor.Waits (d : Distributor) (holder : Nat) (ref : LineRef) : Prop :=
  d.onList holder ref.number = true ∧ (d.descriptor ref).status.queued = true

instance (d : Distributor) (holder : Nat) (ref : LineRef) : Decidable (d.Waits holder ref) :=
  inferInstanceAs (Decidable (_ ∧ _))

/-- An operation that leads from `m` to `m'` has queued the line on `holder`, or raised it
again there. -/
def Machine.Accepts {σ : Type} (m m' : Machine σ) (holder : Nat) (ref : LineRef) : Prop :=
  Call.raiseInflight holder ref.number ∈ m'.calls.drop m.calls.length ∨
    m.dist.onList holder ref.number = false ∧ m'.dist.onList holder ref.number = true

instance {σ : Type} (m m' : Machine σ) (holder : Nat) (ref : LineRef) :
    Decidable (m.Accepts m' holder ref) :=
  inferInstanceAs (Decidable (_ ∨ _))

/-- The writes that disable a line: those that clear its bit. A write to a bit that is
already clear does nothing. -/
def LineRef.MaskedBy (d : Distributor) (v offset : Nat) (width : Width) (value : Word)
    (ref : LineRef) : Prop :=
  (d.vcpu? v).isSome = true ∧ ∃ group : Group, group.Accepts offset width ∧
    group.register = .clearEnable ∧ ref.Changed d v (offset - group.first) (value &&& ·)

/-- Operations that take a waiting line away from its holder, or take note of it. An
operation that is refused is none of them. -/
def Operation.Withdraws (d : Distributor) (holder : Nat) (ref : LineRef) : Operation → Prop
  | .setVisible v line true => d.resolve v line = .ok ref
  | .disableLines v mask rank => (d.vcpu? v).isSome = true ∧ ref.Masked v mask rank
  | .write v offset width value => ref.MaskedBy d v offset width value
  | .writeAt v address width value =>
      ∃ offset, d.config.frameOffset address = .ok offset ∧ ref.MaskedBy d v offset width value
  | .clearPending v | .freeVcpu v => v = holder
  | _ => False

/-- Completions of the line by its holder while it is disabled. -/
def Operation.CompletesDisabled (d : Distributor) (holder : Nat) (ref : LineRef) :
    Operation → Prop
  | .retire v line =>
      v = holder ∧ d.resolve v line = .ok ref ∧ (d.descriptor ref).status.enabled = false
  | _ => False

/-- Operations after which a waiting line may not wait any more. -/
def Operation.Drops (d : Distributor) (holder : Nat) (ref : LineRef) (operation : Operation) :
    Prop :=
  operation.Withdraws d holder ref ∨ operation.CompletesDisabled d holder ref

/-! ## One act -/

namespace Distributor

variable {d : Distributor} {holder : Nat} {ref : LineRef}

/-- A line waits if its owner is the holder and it is raised. -/
theorem waits_of_owner (consistent : Consistent d) {p : Descriptor}
    (found : d.descriptor? ref = some p) (owner : p.owner = some holder)
    (queued : p.status.queued = true) : d.Waits holder ref :=
  ⟨consistent.onList_of_owner found owner, by rwa [descriptor_of_eq_some found]⟩

end Distributor

/-- Acts that let a line wait. -/
def Act.Spares (holder : Nat) (ref : LineRef) : Act → Prop
  | touch other report => other = ref → report ≠ .visible true
  | unlink v other => other = ref → v ≠ holder
  | clear v | release v => v ≠ holder
  | _ => True

theorem Report.queued_apply {report : Report} (quiet : report ≠ .visible true) (p : Descriptor) :
    (report.apply p).status.queued = p.status.queued := by
  cases report with
  | visible shown =>
      cases shown with
      | false => rfl
      | true => exact absurd rfl quiet
  | _ => rfl

namespace Act

variable {a : Act} {d : Distributor} {holder : Nat} {ref : LineRef}

/-- A change of one line that leaves owner and mark. -/
theorem waits_of_change {f : Descriptor → Descriptor} {other : LineRef}
    (consistent : Consistent d) (allowed : a.Allowed d) (seen : ref.SeenBy holder)
    (waits : d.Waits holder ref) (change : a.change? = some (other, f))
    (keeps : other = ref → (f (d.descriptor ref)).owner = some holder ∧
      (f (d.descriptor ref)).status.queued = true) :
    (a.apply d).Waits holder ref := by
  have after := consistent.apply allowed
  obtain ⟨found, owner⟩ := consistent.owner_of_onList waits.1 seen
  have changed := descriptor?_apply_of_change? (d := d) change ref
  split at changed
  · rename_i same
    obtain ⟨owner, queued⟩ := keeps same
    rw [found] at changed
    exact Distributor.waits_of_owner after changed owner queued
  · exact Distributor.waits_of_owner after (changed.trans found) owner waits.2

/-- A waiting line waits after every act that spares it. -/
theorem Spares.waits (spares : a.Spares holder ref) (consistent : Consistent d)
    (allowed : a.Allowed d) (seen : ref.SeenBy holder) (waits : d.Waits holder ref) :
    (a.apply d).Waits holder ref := by
  have after := consistent.apply allowed
  obtain ⟨found, owner⟩ := consistent.owner_of_onList waits.1 seen
  have queued := waits.2
  have same : (a.apply d).descriptor? ref = d.descriptor? ref → (a.apply d).Waits holder ref :=
    fun same => Distributor.waits_of_owner after (same.trans found) owner queued
  cases a with
  | ask | note | call | control | store => exact same (Registers.descriptor?_apply (by trivial) ref)
  | touch other report =>
      refine waits_of_change consistent allowed seen waits rfl fun this => ⟨?_, ?_⟩
      · rw [Report.apply_owner, owner]
      · rw [Report.queued_apply (spares this), queued]
  | enable other =>
      exact waits_of_change consistent allowed seen waits rfl fun _ => ⟨owner, queued⟩
  | retrigger v other =>
      exact waits_of_change consistent allowed seen waits rfl fun _ => ⟨owner, rfl⟩
  | keep v other =>
      exact waits_of_change consistent allowed seen waits rfl fun _ => ⟨owner, queued⟩
  | link v other priority =>
      refine waits_of_change consistent allowed seen waits rfl fun this => ?_
      obtain ⟨-, -, -, free, -⟩ := allowed
      rw [this, owner] at free
      cases free
  | unlink v other =>
      refine waits_of_change consistent allowed seen waits rfl fun this => ?_
      have owner' : (d.descriptor other).owner = some v := allowed
      rw [this, owner] at owner'
      exact absurd (Option.some.inj owner').symm (spares this)
  | clear v =>
      apply same
      rw [apply]
      cases held : d.inflight? v with
      | none => rw [Distributor.dropInflight_of_none held]
      | some list =>
          rw [Distributor.descriptor?_dropInflight held, if_neg]
          rintro ⟨seen', member⟩
          have owner' := consistent.owner_of_mem_lines held member seen' found
          exact spares (Option.some.inj (owner'.symm.trans owner))
  | allocate v vcpu =>
      apply same
      cases ref with
      | shared index => rfl
      | banked u line =>
          rw [apply, Distributor.descriptor?_setVcpu_banked, if_neg]
          rintro ⟨rfl, -⟩
          simp [Distributor.descriptor?, allowed.1] at found
  | release v =>
      apply same
      cases ref with
      | shared index => rfl
      | banked u line =>
          rw [apply, Distributor.descriptor?_setVcpu_banked, if_neg]
          rintro ⟨rfl, -⟩
          exact spares seen

theorem Enables.spares {S : LineRef → Prop} (enables : a.Enables S) : a.Spares holder ref := by
  cases a with
  | ask | note | call | enable | retrigger | link => trivial
  | _ => exact enables.elim

theorem Delivers.spares {S : LineRef → Prop} (delivers : a.Delivers S) : a.Spares holder ref :=
  delivers.enables.spares

theorem Idles.spares (idles : a.Idles) : a.Spares holder ref :=
  (idles.enables fun _ => True).spares

theorem Disables.spares {S : LineRef → Prop} (others : ¬ S ref) (disables : a.Disables S) :
    a.Spares holder ref := by
  cases a with
  | ask | note | call => trivial
  | touch other report =>
      cases report with
      | disabled =>
          intro _ loud
          cases loud
      | _ => exact disables.elim
  | unlink v other =>
      rintro rfl
      exact absurd disables others
  | _ => exact disables.elim

/-- A line that is raised again waits. -/
theorem waits_of_retriggered (consistent : Consistent d) (allowed : a.Allowed d)
    (seen : ref.SeenBy holder)
    (member : Event.call (.raiseInflight holder ref.number) ∈ a.events d) :
    (a.apply d).Waits holder ref := by
  have after := consistent.apply allowed
  cases a with
  | retrigger v other =>
      have owner : (d.descriptor other).owner = some v := allowed
      have found := Distributor.descriptor?_of_owner owner
      simp only [events, List.mem_singleton, Event.call.injEq, Call.raiseInflight.injEq] at member
      obtain ⟨rfl, number⟩ := member
      rw [consistent.numbered found] at number
      obtain rfl := LineRef.eq_of_seenBy seen (consistent.owned found owner).1 number
      have changed := descriptor?_apply_of_change? (a := .retrigger holder ref) (d := d) rfl ref
      rw [if_pos rfl, found] at changed
      exact Distributor.waits_of_owner after changed owner rfl
  | call made =>
      simp only [events, List.mem_singleton, Event.call.injEq] at member
      rw [← member] at allowed
      cases allowed
  | enable other =>
      simp only [events, shows] at member
      split at member
      · cases member
      · split at member <;> simp at member
  | link v other priority =>
      simp only [events] at member
      split at member <;> simp at member
  | _ => simp [events] at member

/-- A line that is put on a list waits. -/
theorem waits_of_linked (consistent : Consistent d) (allowed : a.Allowed d)
    (seen : ref.SeenBy holder) (absent : d.onList holder ref.number = false)
    (listed : (a.apply d).onList holder ref.number = true) : (a.apply d).Waits holder ref := by
  have after := consistent.apply allowed
  obtain ⟨entry, lists, number⟩ := Distributor.onList_iff.1 listed
  obtain ⟨other, p', number', seen', found', owner', -⟩ := after.listed lists
  obtain rfl := LineRef.eq_of_seenBy seen' seen (number'.trans number)
  have free : ∀ p, d.descriptor? other = some p → p.owner ≠ some holder := by
    intro p found owner
    rw [consistent.onList_of_owner found owner] at absent
    cases absent
  have same : (a.apply d).descriptor? other ≠ d.descriptor? other :=
    fun same => free p' (same.symm.trans found') owner'
  cases a with
  | enable | retrigger | keep =>
      rw [Distributor.onList, apply, Distributor.inflight?_updateLine, ← Distributor.onList,
        absent] at listed
      cases listed
  | link v ref priority =>
      have changed := descriptor?_apply_of_change? (a := .link v ref priority) (d := d) rfl other
      split at changed
      · rw [found'] at changed
        obtain ⟨p, known, rfl⟩ := Option.map_eq_some_iff.1 changed.symm
        exact Distributor.waits_of_owner after found' owner' rfl
      · exact absurd changed same
  | allocate v vcpu =>
      obtain ⟨-, -, capacity, -, created⟩ := allowed
      obtain ⟨-, idle, -⟩ := Vcpu.idle_of_create created
      cases other with
      | shared index => exact absurd rfl same
      | banked u line =>
          rw [apply, Distributor.descriptor?_setVcpu_banked] at found' same
          split at found'
          · rw [Option.map_some, idle line] at found'
            obtain rfl := Option.some.inj found'
            cases owner'
          · exact absurd found' (fun found => free p' found owner')
  | _ =>
      rw [Distributor.onList_iff.2 ⟨entry, Shrinks.lists (by trivial) lists, number⟩] at absent
      cases absent

end Act

/-! ## One operation -/

section Operations

variable {d : Distributor} {a : Act} {holder : Nat} {ref : LineRef}

theorem Register.spares_of_takes {v position : Nat} {value : Word} {register : Register}
    (takes : register.Takes d v position value a)
    (others : register = .clearEnable → ¬ ref.Changed d v position (value &&& ·)) :
    a.Spares holder ref := by
  cases register with
  | control =>
      obtain idle | ⟨enabled, rfl⟩ := takes
      · exact idle.spares
      · trivial
  | setEnable =>
      obtain ⟨f, rfl⟩ | enables := takes
      · trivial
      · exact enables.spares
  | clearEnable =>
      obtain ⟨f, rfl⟩ | disables := takes
      · trivial
      · exact disables.spares (others rfl)
  | clearActive | priority | targets | trigger =>
      obtain idle | ⟨index, f, rfl, -⟩ := takes
      · exact idle.spares
      · trivial
  | softwareInterrupt => exact Act.Delivers.spares takes
  | _ => exact Act.Idles.spares takes

theorem Act.Writes.spares {v offset : Nat} {width : Width} {value : Word}
    (writes : a.Writes d v offset width value) (others : ¬ ref.MaskedBy d v offset width value) :
    a.Spares holder ref := by
  obtain idle | ⟨present, group, accepts, takes⟩ := writes
  · exact idle.spares
  · exact Register.spares_of_takes takes fun clears changed =>
      others ⟨present, group, accepts, clears, changed⟩

/-- An operation that does not drop a waiting line takes only acts that let it wait. -/
theorem Operation.spares_of_takes {operation : Operation}
    (waits : d.Waits holder ref) (stays : ¬ operation.Drops d holder ref)
    (takes : operation.Takes d a) (owner : (d.descriptor ref).owner = some holder) :
    a.Spares holder ref := by
  cases operation with
  | initVcpu v =>
      obtain idle | ⟨vcpu, rfl⟩ := takes
      · exact idle.spares
      · trivial
  | freeVcpu v =>
      have other : v ≠ holder := fun same => stays (.inl same)
      obtain idle | rfl | rfl := takes
      · exact idle.spares
      · exact other
      · exact other
  | clearPending v =>
      obtain idle | rfl := takes
      · exact idle.spares
      · exact fun same => stays (.inl same)
  | read | readAt | inflightLines | pendingStatus => exact Act.Idles.spares takes
  | inject | injectSpi | dispatchSoftware => exact Act.Delivers.spares takes
  | enableLines => exact takes.2.spares
  | disableLines v mask rank =>
      obtain ⟨present, disables⟩ := takes
      exact disables.spares fun masked => stays (.inl ⟨present, masked⟩)
  | write v offset width value =>
      exact Act.Writes.spares takes fun masked => stays (.inl masked)
  | writeAt v address width value =>
      obtain ⟨offset, inside, writes⟩ := takes
      exact writes.spares fun masked => stays (.inl ⟨offset, inside, masked⟩)
  | setVisible v line visible =>
      obtain ⟨other, resolved, rfl⟩ := takes
      rintro rfl loud
      cases loud
      exact stays (.inl resolved)
  | setActive | unroutePhysical =>
      obtain ⟨other, -, rfl⟩ := takes
      rintro rfl loud
      cases loud
  | routePhysical =>
      obtain idle | ⟨other, -, rfl⟩ := takes
      · exact idle.spares
      · rintro rfl loud
        cases loud
  | retire v line =>
      obtain ⟨other, resolved, takes⟩ := takes
      split at takes
      · rw [takes]
        trivial
      · rename_i lets
        obtain rfl | rfl := takes
        · rintro rfl loud
          cases loud
        · rintro rfl rfl
          -- The holder completes the line, so it is disabled: raised it is, and enabled
          -- it would have been kept.
          refine stays (.inr ⟨rfl, resolved, Bool.eq_false_iff.2 fun enabled => ?_⟩)
          exact lets ⟨owner, by rw [waits.2, enabled]; rfl⟩

end Operations

namespace Machine

variable {σ : Type} [Host σ] {m m' : Machine σ} {holder : Nat} {ref : LineRef}

omit [Host σ] in
theorem waits_of_steps {K : Act → Prop} (steps : Steps K m m')
    (spares : ∀ a, K a → a.Spares holder ref) (consistent : Consistent m.dist)
    (seen : ref.SeenBy holder) (waits : m.dist.Waits holder ref) : m'.dist.Waits holder ref := by
  refine (steps.kept (P := fun s => Consistent s.dist ∧ s.dist.Waits holder ref) ?_
    ⟨consistent, waits⟩).2
  rintro m a m' kind step ⟨consistent, waits⟩
  rw [step.dist]
  exact ⟨consistent.apply step.allowed, (spares a kind).waits consistent step.allowed seen waits⟩

theorem waits_perform {operation : Operation} (consistent : Consistent m.dist)
    (seen : ref.SeenBy holder) (waits : m.dist.Waits holder ref)
    (stays : ¬ operation.Drops m.dist holder ref) :
    (m.perform operation).2.dist.Waits holder ref := by
  have owner := (consistent.owner_of_onList waits.1 seen).2
  exact waits_of_steps (m.perform_steps operation)
    (fun _ takes => Operation.spares_of_takes waits stays takes owner) consistent seen waits

/-! ## Accepting a line -/

/-- What an operation has accepted waits when it is done. -/
theorem waits_of_accepts {operation : Operation} (consistent : Consistent m.dist)
    (seen : ref.SeenBy holder) (accepted : m.Accepts (m.perform operation).2 holder ref) :
    (m.perform operation).2.dist.Waits holder ref := by
  have steps := m.perform_steps operation
  by_cases shrinks : ∀ a, operation.Takes m.dist a → a.Shrinks
  · exfalso
    rcases accepted with member | ⟨absent, listed⟩
    · have old := steps.raises_old shrinks (Nat.le_refl _) rfl member
      rw [List.drop_length] at old
      cases old
    · obtain ⟨entry, lists, number⟩ := Distributor.onList_iff.1 listed
      rw [Distributor.onList_iff.2 ⟨entry, steps.lists_of_shrinks shrinks lists, number⟩] at absent
      cases absent
  · have grows := (operation.grows_or_shrinks m.dist).resolve_right shrinks
    have spares : ∀ a, operation.Takes m.dist a → a.Spares holder ref := by
      intro a takes
      have grown := grows a takes
      cases a with
      | touch other report =>
          rintro rfl rfl
          obtain ⟨v, line, rfl⟩ := Operation.setVisible_of_takes takes
          refine shrinks ?_
          rintro _ ⟨ref, -, rfl⟩
          trivial
      | unlink | clear | release => exact grown.elim
      | _ => trivial
    refine (steps.keptSince (P := fun s => Consistent s.dist ∧
      (m.Accepts s holder ref → s.dist.Waits holder ref)) ?_ ⟨consistent, ?_⟩).2 accepted
    · rintro b a c since takes step ⟨consistent, waits⟩
      rw [step.dist]
      refine ⟨consistent.apply step.allowed, fun accepted => ?_⟩
      by_cases before : m.Accepts b holder ref
      · exact (spares a takes).waits consistent step.allowed seen (waits before)
      · rcases accepted with member | ⟨absent, listed⟩
        · rcases (step.mem_calls_iff since.calls_extend.length_le).1 member with member | member
          · exact absurd (.inl member) before
          · exact a.waits_of_retriggered consistent step.allowed seen member
        · cases on : b.dist.onList holder ref.number with
          | true => exact absurd (.inr ⟨absent, on⟩) before
          | false => exact a.waits_of_linked consistent step.allowed seen on (step.dist ▸ listed)
    · rintro (member | ⟨absent, listed⟩)
      · rw [List.drop_length] at member
        cases member
      · rw [absent] at listed
        cases listed

/-- Raising a line that somebody holds, or one on a VCPU that is online, is accepted. -/
theorem accepts_inject {v line : Nat} (consistent : Consistent m.dist)
    (resolved : m.dist.resolve v line = .ok ref) :
    ((m.dist.descriptor ref).owner = some holder →
        m.Accepts (m.perform (.inject v line)).2 holder ref) ∧
      ((m.dist.descriptor ref).owner = none → (m.online v).1 = true →
        m.Accepts (m.perform (.inject v line)).2 v ref) := by
  obtain ⟨present, number, seen, there⟩ := Distributor.found_of_resolve resolved
  obtain ⟨p, known⟩ := Option.isSome_iff_exists.1 there
  have numbered : (m.dist.descriptor ref).line = ref.number := by
    rw [Distributor.descriptor_of_eq_some known]
    exact consistent.numbered known
  have delivered : (m.perform (.inject v line)).2 = m.deliver [] v ref := by
    simp [perform, acknowledge, answer, inject, injectAmid, resolved]
  rw [delivered]
  constructor
  · intro owner
    left
    have alive := (consistent.owned (Distributor.descriptor?_of_owner owner) owner).2.present
    have held : m.dist.holder v ref = .ok holder := by simp [Distributor.holder, owner, alive]
    unfold deliver
    simp only [lockHolder_of_holder held, Descriptor.isInflight, owner, Option.isSome_some, if_true]
    refine mem_drop_of_prefix (steps_notify _ _ _).calls_extend ?_
    rw [retrigger, calls_call, numbered]
    exact (mem_drop_append (Nat.le_refl m.calls.length)).2 (.inr List.mem_cons_self)
  · intro free up
    right
    have held := Distributor.holder_of_owner_none free v
    unfold deliver
    simp only [lockHolder_of_holder held, Descriptor.isInflight, free, Option.isSome_none,
      Bool.false_eq_true, if_false, up, if_true]
    constructor
    · refine Bool.eq_false_iff.2 fun listed => ?_
      rw [(consistent.owner_of_onList listed seen).2] at free
      cases free
    · have linked := step_link (m.online v).2 there seen present free
      have lists := (Act.lists_link_iff ref (m.dist.priorityOf v (m.dist.descriptor ref).line)
        present).2 (.inl ⟨rfl, rfl⟩)
      rw [dist_online, numbered] at linked
      have notified := steps_notify ((m.online v).2.link v ref ref.number
        (m.dist.priorityOf v ref.number)) ref.number v
      rw [numbered] at lists ⊢
      have after := linked.dist
      rw [dist_online] at after
      rw [← after] at lists
      have listed := notified.lists_of_grows (fun _ idle => idle.grows) lists
      exact Distributor.onList_iff.2 ⟨_, listed, rfl⟩

/-! ## Histories -/

/-- Whether no operation of a history does `D` in the state in which it is carried out. -/
def Never (D : Distributor → Operation → Prop) : Machine σ → List Operation → Prop
  | _, [] => True
  | m, operation :: rest => ¬ D m.dist operation ∧ Never D (m.perform operation).2 rest

theorem waits_run {operations : List Operation} (consistent : Consistent m.dist)
    (seen : ref.SeenBy holder) (waits : m.dist.Waits holder ref)
    (spared : m.Never (fun d operation => operation.Drops d holder ref) operations) :
    (m.run operations).dist.Waits holder ref := by
  induction operations generalizing m with
  | nil => exact waits
  | cons operation rest ih =>
      obtain ⟨stays, spared⟩ := spared
      exact ih (consistent.perform operation) (waits_perform consistent seen waits stays) spared

/-- Once an operation of a history has accepted a line, the line waits on its holder until
an operation drops it. -/
theorem waits_until_dropped {config : Config} {host : σ}
    (started : Machine.start config host = .ok m) (before : List Operation)
    (operation : Operation) (after : List Operation) (seen : ref.SeenBy holder)
    (accepted : (m.run before).Accepts ((m.run before).perform operation).2 holder ref)
    (spared : ((m.run before).perform operation).2.Never
      (fun d operation => operation.Drops d holder ref) after) :
    (m.run (before ++ operation :: after)).dist.Waits holder ref := by
  have consistent := consistent_run started before
  rw [run_append, run_cons]
  exact waits_run (consistent.perform operation) seen (waits_of_accepts consistent seen accepted)
    spared

/-- The line is enabled, so that its completion keeps it. -/
theorem waits_until_dropped_completed :
    let m : Machine SteadyHost := .fresh (.forGuest 1) { up := [0] }
    (m.run ([.initVcpu 0, .enableLines 0 32 0] ++ .inject 0 5 :: [.retire 0 5])).dist.Waits 0
      (.banked 0 5) := by
  intro m
  have started : Machine.start (.forGuest 1) ({ up := [0] } : SteadyHost) = .ok m := rfl
  have accepted : (m.run [.initVcpu 0, .enableLines 0 32 0]).Accepts
      ((m.run [.initVcpu 0, .enableLines 0 32 0]).perform (.inject 0 5)).2 0 (.banked 0 5) := by
    decide +kernel
  have enabled : (((m.run [.initVcpu 0, .enableLines 0 32 0]).perform
      (.inject 0 5)).2.dist.descriptor (.banked 0 5)).status.enabled ≠ false := by
    decide +kernel
  refine waits_until_dropped started _ _ _ rfl accepted ⟨?_, trivial⟩
  rintro (withdraws | ⟨-, -, disabled⟩)
  · exact withdraws
  · exact enabled disabled

/-- A line that is raised while it is disabled does not wait for the guest to enable it, if
it is completed before. Completion is not among the operations that withdraw a line. -/
theorem not_waits_until_withdrawn :
    let m : Machine SteadyHost := .fresh (.forGuest 1) { up := [0] }
    let ref : LineRef := .banked 0 5
    Machine.start (.forGuest 1) { up := [0] } = .ok m ∧
      (m.run [.initVcpu 0]).Accepts ((m.run [.initVcpu 0]).perform (.inject 0 5)).2 0 ref ∧
      ((m.run [.initVcpu 0]).perform (.inject 0 5)).2.Never
        (fun d operation => operation.Withdraws d 0 ref) [.retire 0 5] ∧
      ¬ (m.run ([.initVcpu 0] ++ .inject 0 5 :: [.retire 0 5])).dist.Waits 0 ref := by
  intro m ref
  exact ⟨rfl, by decide +kernel, ⟨id, trivial⟩, by decide +kernel⟩

end Machine

end VirtualGic
