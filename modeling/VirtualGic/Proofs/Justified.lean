/-
# Proofs.Justified — calls on the physical interface have their reason

Calls are made from many places, before and after the lists are changed, and one operation
may go on with other lines behind a call. `justified_perform` says what holds when the
operation has returned. A line that was raised is on the list of that VCPU as it was raised,
and enabled. A line that was raised again is where it was. A line that was taken out of the
queues is on the list no more.

Raising is settled act by act, for no operation both raises lines and drops or disables any.
Which lines are raised again depends on how an operation goes through its VCPUs: `Repeats`
keeps track of the VCPUs that were dealt with, and a software interrupt deals with each of
its targets once. `Removes` does the same for lines that are disabled one after the other:
behind a call, lists only shrink.
-/
import VirtualGic.Proofs.Calls
import VirtualGic.Proofs.Faultless
import VirtualGic.Proofs.Raised

namespace VirtualGic

set_option autoImplicit false

/-! ## What is raised is enabled -/

namespace Act

variable {a : Act} {d : Distributor}

theorem enabled_of_change {target : LineRef} {f : Descriptor → Descriptor}
    (change : a.change? = some (target, f))
    (keeps : ∀ p : Descriptor, p.status.enabled = true → (f p).status.enabled = true)
    {ref : LineRef} {p : Descriptor} (found : d.descriptor? ref = some p)
    (enabled : p.status.enabled = true) :
    ∃ p', (a.apply d).descriptor? ref = some p' ∧ p'.status.enabled = true := by
  rw [descriptor?_apply_of_change? change, found]
  split
  · exact ⟨f p, rfl, keeps p enabled⟩
  · exact ⟨p, rfl, enabled⟩

/-- What is enabled stays enabled when lists only grow. -/
theorem Grows.enabled (grows : a.Grows) (allowed : a.Allowed d) {ref : LineRef} {p : Descriptor}
    (found : d.descriptor? ref = some p) (enabled : p.status.enabled = true) :
    ∃ p', (a.apply d).descriptor? ref = some p' ∧ p'.status.enabled = true := by
  cases a with
  | ask | note | call | control | store =>
      rw [Registers.descriptor?_apply (by trivial)]
      exact ⟨p, found, enabled⟩
  | touch target report =>
      refine enabled_of_change (a := .touch target report) rfl (fun p on => ?_) found enabled
      cases report with
      | disabled => exact grows.elim
      | _ => exact on
  | enable target =>
      exact enabled_of_change (a := .enable target) rfl (fun _ _ => rfl) found enabled
  | retrigger holder target =>
      exact enabled_of_change (a := .retrigger holder target) rfl (fun _ on => on) found enabled
  | link v target priority =>
      exact enabled_of_change (a := .link v target priority) rfl (fun _ on => on) found enabled
  | keep v target =>
      exact enabled_of_change (a := .keep v target) rfl (fun _ on => on) found enabled
  | allocate v vcpu =>
      refine ⟨p, ?_, enabled⟩
      cases ref with
      | shared index => exact found
      | banked w line =>
          rw [apply, Distributor.descriptor?_setVcpu_banked, if_neg, found]
          rintro ⟨rfl, -⟩
          have present := Distributor.descriptor?_isSome_banked d v line
          rw [found, allowed.1] at present
          cases present
  | unlink | clear | release => exact grows.elim

/-- A line is raised when it is enabled, and on a VCPU that sees it. -/
theorem enabled_of_raise (allowed : a.Allowed d) (consistent : Consistent d) {v line : Nat}
    {priority : Byte} (member : Event.call (.raise v line priority) ∈ a.events d) :
    ∃ ref p, ref.number = line ∧ ref.SeenBy v ∧ (a.apply d).descriptor? ref = some p ∧
      p.status.enabled = true := by
  cases a with
  | call made =>
      rw [events, List.mem_singleton, Event.call.injEq] at member
      rw [← member] at allowed
      cases allowed
  | enable ref =>
      obtain ⟨p, found⟩ := Option.isSome_iff_exists.1 allowed
      rw [events, shows, Distributor.descriptor_of_eq_some found] at member
      split at member
      · cases member
      · rename_i owner owned
        split at member
        · simp only [List.mem_singleton, Event.call.injEq, Call.raise.injEq] at member
          obtain ⟨rfl, rfl, rfl⟩ := member
          refine ⟨ref, p.setEnabled true, (consistent.numbered found).symm,
            (consistent.owned found owned).1, ?_, rfl⟩
          rw [descriptor?_apply_of_change? (a := .enable ref) rfl, if_pos rfl, found]
          rfl
        · cases member
  | link w ref highest =>
      obtain ⟨there, seen, -, -, -⟩ := allowed
      obtain ⟨p, found⟩ := Option.isSome_iff_exists.1 there
      rw [events, Distributor.descriptor_of_eq_some found] at member
      split at member
      · rename_i enabled
        simp only [List.mem_singleton, Event.call.injEq, Call.raise.injEq] at member
        obtain ⟨rfl, rfl, rfl⟩ := member
        refine ⟨ref, p.claim v priority, (consistent.numbered found).symm, seen, ?_, enabled⟩
        rw [descriptor?_apply_of_change? (a := .link v ref priority) rfl, if_pos rfl, found]
        rfl
      · cases member
  | keep w ref =>
      obtain ⟨owned, -, enabled⟩ := allowed
      have found := Distributor.descriptor?_of_owner owned
      simp only [events, List.mem_singleton, Event.call.injEq, Call.raise.injEq] at member
      obtain ⟨rfl, rfl, rfl⟩ := member
      refine ⟨ref, (d.descriptor ref).complete, rfl, (consistent.owned found owned).1, ?_, enabled⟩
      rw [descriptor?_apply_of_change? (a := .keep v ref) rfl, if_pos rfl, found]
      rfl
  | _ => simp [events] at member

end Act

/-- Where lists only grow, what is raised is enabled. -/
theorem Steps.raises_enabled {σ : Type} {K : Act → Prop} {m m' : Machine σ}
    (steps : Steps K m m') (grows : ∀ a, K a → a.Grows) (consistent : Consistent m.dist)
    {v line : Nat} {priority : Byte}
    (member : Call.raise v line priority ∈ m'.calls.drop m.calls.length) :
    ∃ ref p, ref.number = line ∧ ref.SeenBy v ∧ m'.dist.descriptor? ref = some p ∧
      p.status.enabled = true := by
  refine steps.holds_of_made (Q := fun d => ∃ ref p, ref.number = line ∧ ref.SeenBy v ∧
    d.descriptor? ref = some p ∧ p.status.enabled = true) consistent
      (fun allowed consistent made => Act.enabled_of_raise allowed consistent made) ?_ member
  rintro a d kind allowed ⟨ref, p, number, seen, found, enabled⟩
  obtain ⟨p', found', enabled'⟩ := (grows a kind).enabled allowed found enabled
  exact ⟨ref, p', number, seen, found', enabled'⟩

namespace Machine

variable {σ : Type} [Host σ]

/-- What an operation raises is on the list as it was raised, and enabled. -/
theorem raised_perform {m : Machine σ} (consistent : Consistent m.dist) (operation : Operation)
    {v line : Nat} {priority : Byte}
    (member : Call.raise v line priority ∈
      (m.perform operation).2.calls.drop m.calls.length) :
    (m.perform operation).2.dist.Lists v ⟨line, priority⟩ ∧
      ∃ p, (m.perform operation).2.dist.line? v line = some p ∧ p.owner = some v ∧
        p.priority = priority ∧ p.status.enabled = true := by
  have steps := m.perform_steps operation
  rcases operation.grows_or_shrinks m.dist with grows | shrinks
  · have lists := steps.raises_listed grows consistent member
    obtain ⟨ref, p, number, seen, found, enabled⟩ := steps.raises_enabled grows consistent member
    obtain ⟨owner, same⟩ := (consistent.perform operation).owner_of_lists lists number seen found
    have looked := Distributor.line?_eq_some_iff.2 ⟨ref, number, seen, found⟩
    exact ⟨lists, p, looked, owner, same, enabled⟩
  · have old := steps.raises_old shrinks (Nat.le_refl _) rfl member
    rw [List.drop_length] at old
    cases old

end Machine

/-! ## What is raised again -/

namespace Machine

variable {σ : Type}

/-- Only lists of VCPUs in `S` are changed, and what is raised again is on a list of theirs
that is not. -/
structure Repeats (S : Nat → Prop) (m m' : Machine σ) : Prop where
  grown : m.calls <+: m'.calls
  others : ∀ w, ¬ S w → m'.dist.inflight? w = m.dist.inflight? w
  again : ∀ {w line}, Call.raiseInflight w line ∈ m'.calls.drop m.calls.length →
    S w ∧ ∃ list, m.dist.inflight? w = some list ∧ m'.dist.inflight? w = some list ∧
      line ∈ list.lines

namespace Repeats

variable {S T : Nat → Prop} {C : Call → Prop} {m m' m'' : Machine σ}

theorem of_makes [Host σ] (makes : Makes C m m') (never : ∀ w line, ¬ C (.raiseInflight w line))
    (others : ∀ w, ¬ S w → m'.dist.inflight? w = m.dist.inflight? w) : Repeats S m m' :=
  ⟨makes.grown, others, fun made => absurd (makes.sort_of_mem made) (never _ _)⟩

theorem quiet (dist : m'.dist = m.dist) (calls : m'.calls = m.calls) : Repeats S m m' := by
  refine ⟨calls ▸ List.prefix_rfl, fun _ _ => by rw [dist], fun made => ?_⟩
  rw [calls, List.drop_length] at made
  cases made

/-- Nothing is said of the lists if all VCPUs may be dealt with. -/
theorem of_never [Host σ] (makes : Makes C m m')
    (never : ∀ w line, ¬ C (.raiseInflight w line)) :
    Repeats (fun _ => True) m m' :=
  .of_makes makes never fun _ outside => absurd trivial outside

/-- Nothing that matters here happened before. -/
theorem of_same (dist : m'.dist = m.dist) (calls : m'.calls = m.calls)
    (repeats : Repeats S m' m'') : Repeats S m m'' := by
  obtain ⟨grown, others, again⟩ := repeats
  rw [dist] at others again
  rw [calls] at grown again
  exact ⟨grown, others, again⟩

theorem mono (within : ∀ w, S w → T w) (repeats : Repeats S m m') : Repeats T m m' :=
  ⟨repeats.grown, fun w outside => repeats.others w fun inside => outside (within w inside),
    fun made => (repeats.again made).imp_left (within _)⟩

/-- VCPUs that are dealt with one after the other do not meet. -/
theorem trans (apart : ∀ w, S w → ¬ T w) (first : Repeats S m m') (second : Repeats T m' m'') :
    Repeats (fun w => S w ∨ T w) m m'' := by
  refine ⟨first.grown.trans second.grown, ?_, ?_⟩
  · intro w outside
    rw [second.others w fun inside => outside (.inr inside),
      first.others w fun inside => outside (.inl inside)]
  · intro w line made
    rcases mem_drop_cases first.grown.length_le second.grown made with made | made
    · obtain ⟨inside, list, before, now, member⟩ := first.again made
      exact ⟨.inl inside, list, before, (second.others w (apart w inside)).trans now, member⟩
    · obtain ⟨inside, list, now, later, member⟩ := second.again made
      have untouched := first.others w fun other => apart w other inside
      exact ⟨.inr inside, list, untouched.symm.trans now, later, member⟩

end Repeats

end Machine

/-- A private line is seen by one VCPU. -/
theorem LineRef.eq_of_private {ref : LineRef} (low : ref.number < linesPerRank) {v w : Nat}
    (seen : ref.SeenBy v) (seen' : ref.SeenBy w) : v = w := by
  cases ref with
  | banked u line => exact (show u = v from seen).symm.trans seen'
  | shared index =>
      simp only [number] at low
      omega

namespace SoftwareInterrupt

theorem line_toNat (value : Word) : (line.read value).toNat = value.toNat % 16 := by
  simp only [Field.read, line, Field.ones, BitVec.toNat_and, BitVec.ushiftRight_zero]
  exact Nat.and_two_pow_sub_one_eq_mod value.toNat 4

theorem line_lt (value : Word) : (line.read value).toNat < linesPerRank := by
  rw [line_toNat]
  exact Nat.lt_trans (Nat.mod_lt _ (by decide)) (by decide)

end SoftwareInterrupt

namespace Machine

variable {σ : Type} [Host σ]

/-- Raising one line deals with the VCPU it is raised on, or with the one that holds it. -/
theorem repeats_deliver {m : Machine σ} (consistent : Consistent m.dist) {v : Nat} {ref : LineRef}
    (seen : ref.SeenBy v) (there : (m.dist.descriptor? ref).isSome = true)
    (present : (m.dist.vcpu? v).isSome = true) {S : Nat → Prop} (here : S v)
    (held : ∀ w, (m.dist.descriptor ref).owner = some w → S w) :
    Repeats S m (m.deliver [] v ref) := by
  cases owner : (m.dist.descriptor ref).owner with
  | none =>
      refine .of_makes (makes_deliver_of_free m owner) (fun _ _ => id) ?_
      intro w outside
      have other : v ≠ w := fun same => outside (same ▸ here)
      by_cases up : (m.online v).1 = true
      · rw [dist_deliver_of_free seen there present owner up, Act.apply,
          Distributor.inflight?_updateLine_updateInflight, if_neg other]
      · rw [deliver_of_free owner, if_neg up]
        rfl
  | some holder =>
      have found := Distributor.descriptor?_of_owner owner
      obtain ⟨-, lists⟩ := consistent.owned found owner
      have same : ∀ w, (m.deliver [] v ref).dist.inflight? w = m.dist.inflight? w := by
        intro w
        rw [dist_deliver_of_held owner lists.present, Distributor.inflight?_updateLine]
      have makes := makes_deliver_of_held (v := v) m owner lists.present
      rw [consistent.numbered found] at makes
      refine ⟨makes.grown, fun w _ => same w, ?_⟩
      intro w line made
      rcases makes.sort_of_mem made with raises | wakes
      · cases raises
        obtain ⟨list, before, member⟩ := lists
        exact ⟨held _ owner, list, before, (same _).trans before, List.mem_map_of_mem member⟩
      · cases wakes

theorem repeats_inject {m : Machine σ} (consistent : Consistent m.dist) (v line : Nat) :
    Repeats (fun _ => True) m (m.inject v line).2 := by
  unfold inject injectAmid
  split
  · exact .quiet rfl rfl
  · rename_i ref resolved
    obtain ⟨present, -, seen, there⟩ := Distributor.found_of_resolve resolved
    exact repeats_deliver consistent seen there present trivial fun _ _ => trivial

theorem repeats_injectSpi {m : Machine σ} (consistent : Consistent m.dist) (line : Nat) :
    Repeats (fun _ => True) m (m.injectSpi line).2 := by
  have refl : Repeats (fun _ => True) m m := .quiet rfl rfl
  unfold injectSpi
  split
  · exact refl
  · split
    · exact refl
    · split
      · exact refl
      · split
        · exact refl
        · have found := dist_firstOnline m
          exact (repeats_inject (by rw [found]; exact consistent) _ line).of_same (found _)
            (calls_firstOnline m _)

/-- The line of a software interrupt is private to each of its targets. -/
theorem repeats_sendTo {m : Machine σ} (consistent : Consistent m.dist) (v : Nat) (value : Word)
    (target : Nat) : Repeats (· = target) m (sendTo v value m target) := by
  unfold sendTo
  split
  · exact .quiet rfl (m.calls_note _)
  · rename_i state found
    have present : (m.dist.vcpu? target).isSome = true := Option.isSome_iff_exists.2 ⟨state, found⟩
    simp only
    split
    · split
      · exact .quiet rfl rfl
      · rename_i ref looked
        obtain ⟨number, seen, there⟩ := Distributor.lineRef?_eq_some_iff.1 looked
        have low : ref.number < linesPerRank := number ▸ SoftwareInterrupt.line_lt value
        have delivered := repeats_deliver (S := (· = target)) (m := (m.online target).2.note
          (.softwareInterrupt (SoftwareInterrupt.line.read value).toNat v target)) consistent
            seen there present rfl fun w owner =>
              LineRef.eq_of_private low
                (consistent.owned (Distributor.descriptor?_of_owner owner) owner).1 seen
        refine delivered.of_same ?_ ?_
        · rfl
        · exact calls_note (m.online target).2 _
    · exact .quiet rfl (calls_note (m.online target).2 _)

theorem repeats_sendAll {m : Machine σ} (consistent : Consistent m.dist) (v : Nat) (value : Word)
    {targets : List Nat} (distinct : targets.Nodup) :
    Repeats (· ∈ targets) m (targets.foldl (sendTo v value) m) := by
  induction targets generalizing m with
  | nil => exact .quiet rfl rfl
  | cons target rest ih =>
      obtain ⟨fresh, distinct⟩ := List.nodup_cons.1 distinct
      have first := repeats_sendTo consistent v value target
      have others := ih ((steps_sendTo v value m target).consistent consistent) distinct
      refine (first.trans ?_ others).mono fun w => List.mem_cons.2
      rintro w rfl
      exact fresh

theorem repeats_sendSoftware {m : Machine σ} (consistent : Consistent m.dist) (v : Nat)
    (value : Word) : Repeats (fun _ => True) m (m.sendSoftware v value).2 := by
  unfold sendSoftware
  split
  · exact .quiet rfl (m.calls_note _)
  · rename_i choice _
    have dist := (steps_softwareTargets m v value choice).dist_of_idles
    have calls := calls_softwareTargets m v value choice
    simp only
    split
    · exact .quiet dist calls
    · have sent := repeats_sendAll (m := (m.softwareTargets v value choice).2)
        (dist ▸ consistent) v value (nodup_softwareTargets m v value choice)
      exact (sent.mono fun _ _ => trivial).of_same dist calls

theorem repeats_writeRegister {m : Machine σ} (consistent : Consistent m.dist) (v : Nat)
    (access : Access) (value : Word) (register : Register) :
    Repeats (fun _ => True) m (m.writeRegister v access value register).2 := by
  cases register with
  | softwareInterrupt => exact repeats_sendSoftware consistent v value
  | _ => exact .of_never (makes_writeRegister m v access value _) fun _ _ => id

theorem repeats_write {m : Machine σ} (consistent : Consistent m.dist) (v offset : Nat)
    (width : Width) (value : Word) :
    Repeats (fun _ => True) m (m.write v offset width value).2 := by
  rcases m.write_cases v offset width value with
    ⟨-, -, still | decoded⟩ | ⟨-, group, -, reached⟩
  · rw [still]
    exact .quiet rfl rfl
  · rw [decoded]
    exact .of_never (makes_decode m v offset width) (by rintro w line ⟨⟩)
  · rw [reached]
    refine (repeats_writeRegister (m := m.note (.registerWritten v group.name
      (offset - group.first) value)) consistent v _ value group.register).of_same ?_ ?_
    · rfl
    · exact m.calls_note _

theorem repeats_perform {m : Machine σ} (consistent : Consistent m.dist) (operation : Operation) :
    Repeats (fun _ => True) m (m.perform operation).2 := by
  have never := Repeats.of_never (m.perform_makes operation)
  cases operation with
  | inject v line => exact repeats_inject consistent v line
  | injectSpi line => exact repeats_injectSpi consistent line
  | dispatchSoftware v value =>
      show Repeats _ m (m.dispatchSoftware v value).2
      unfold dispatchSoftware
      split
      · exact .quiet rfl rfl
      · exact repeats_sendSoftware consistent v value
  | write v offset width value => exact repeats_write consistent v offset width value
  | writeAt v address width value =>
      show Repeats _ m (m.writeAt v address width value).2
      unfold writeAt
      split
      · exact .quiet rfl rfl
      · exact repeats_write consistent v _ width value
  | read | readAt | clearPending | freeVcpu => exact never (by rintro w line ⟨⟩)
  | retire => exact never (by rintro w line ⟨priority, ⟨⟩⟩)
  | _ => exact never fun _ _ => id

end Machine

/-! ## What is taken out of the queues -/

namespace Machine

variable {σ : Type}

/-- Lists only shrink, and what is taken out of the queues of a VCPU is not on its list. -/
structure Removes (m m' : Machine σ) : Prop where
  grown : m.calls <+: m'.calls
  lists : ∀ {v entry}, m'.dist.Lists v entry → m.dist.Lists v entry
  removed : ∀ {v line}, Call.remove v line ∈ m'.calls.drop m.calls.length →
    m'.dist.onList v line = false

namespace Removes

variable {C : Call → Prop} {m m' m'' : Machine σ}

theorem of_makes [Host σ] (makes : Makes C m m') (never : ∀ v line, ¬ C (.remove v line))
    (lists : ∀ {v entry}, m'.dist.Lists v entry → m.dist.Lists v entry) : Removes m m' :=
  ⟨makes.grown, lists, fun made => absurd (makes.sort_of_mem made) (never _ _)⟩

theorem refl [Host σ] (m : Machine σ) : Removes m m :=
  .of_makes (C := fun _ => False) (.refl m) (fun _ _ => id) id

theorem trans (first : Removes m m') (second : Removes m' m'') : Removes m m'' := by
  refine ⟨first.grown.trans second.grown, fun lists => first.lists (second.lists lists), ?_⟩
  intro v line made
  rcases mem_drop_cases first.grown.length_le second.grown made with made | made
  · refine Bool.eq_false_iff.2 fun listed => Bool.eq_false_iff.1 (first.removed made) ?_
    obtain ⟨entry, lists, same⟩ := Distributor.onList_iff.1 listed
    exact Distributor.onList_iff.2 ⟨entry, second.lists lists, same⟩
  · exact second.removed made

/-- Changes of other parts of the distributor. -/
theorem modify [Host σ] (m : Machine σ) {f : Distributor → Distributor}
    (same : ∀ v, (f m.dist).inflight? v = m.dist.inflight? v) : Removes m (m.modify f) :=
  .of_makes (C := fun _ => False) (.modify m f) (fun _ _ => id)
    (Distributor.lists_of_inflight? (same _)).1

end Removes

variable [Host σ]

theorem removes_call {m : Machine σ} {v line : Nat} (gone : m.dist.onList v line = false) :
    Removes m (m.call (.remove v line)) := by
  refine ⟨⟨_, (m.calls_call _).symm⟩, id, ?_⟩
  intro w other made
  rw [calls_call, List.drop_left, List.mem_singleton] at made
  cases made
  exact gone

theorem removes_dequeue {m : Machine σ} (consistent : Consistent m.dist) {v : Nat} {ref : LineRef}
    (seen : ref.SeenBy v) : Removes m (m.dequeue [] v ref ref.number) := by
  cases owner : (m.dist.descriptor ref).owner with
  | none =>
      rw [dequeue_of_free _ owner]
      refine removes_call (Bool.eq_false_iff.2 fun listed => ?_)
      rw [(consistent.owner_of_onList listed seen).2] at owner
      cases owner
  | some holder =>
      have found := Distributor.descriptor?_of_owner owner
      obtain ⟨seen', lists⟩ := consistent.owned found owner
      have allowed : (Act.unlink holder ref).Allowed m.dist := owner
      have unlinked : Removes m (m.modify (Act.unlink holder ref).apply) :=
        .of_makes (C := fun _ => False) (.modify m _) (fun _ _ => id)
          (Act.Shrinks.lists (a := .unlink holder ref) trivial)
      rw [dequeue_of_held owner lists.present]
      refine unlinked.trans (removes_call (Bool.eq_false_iff.2 fun listed => ?_))
      obtain ⟨known, held⟩ := (consistent.apply allowed).owner_of_onList listed seen'
      rw [Act.descriptor?_apply_of_change? rfl, if_pos rfl, found] at known
      rw [← Option.some.inj known, Descriptor.handBack_owner, if_pos owner] at held
      cases held

theorem removes_disablePhysical (m : Machine σ) (ref : LineRef) :
    Removes m (m.disablePhysical ref) := by
  unfold disablePhysical
  split
  · exact .refl m
  · rename_i irq _
    exact .of_makes (C := (· = .disablePhysical irq)) (makes_call m _ rfl)
      (by rintro w line ⟨⟩) id

theorem removes_disableLine {m : Machine σ} (consistent : Consistent m.dist) (v line : Nat) :
    Removes m (disableLine (fun _ => []) v m line) := by
  unfold disableLine
  split
  · exact .refl m
  · rename_i ref looked
    obtain ⟨rfl, seen, -⟩ := Distributor.lineRef?_eq_some_iff.1 looked
    have disabled : Removes m (m.modify (·.updateLine ref (Descriptor.setEnabled false))) :=
      .modify m fun w => Distributor.inflight?_updateLine ..
    have dequeued := removes_dequeue
      (m := m.modify (·.updateLine ref (Descriptor.setEnabled false)))
      (consistent.updateLine ref fun _ => rfl) seen
    exact disabled.trans (dequeued.trans (removes_disablePhysical _ ref))

theorem removes_disableAll {m : Machine σ} (consistent : Consistent m.dist) (v : Nat)
    (lines : List Nat) : Removes m (lines.foldl (disableLine (fun _ => []) v) m) := by
  induction lines generalizing m with
  | nil => exact .refl m
  | cons line rest ih =>
      exact (removes_disableLine consistent v line).trans
        (ih ((steps_disableLine m line).consistent consistent))

theorem removes_disableMask {m : Machine σ} (consistent : Consistent m.dist) (v : Nat)
    (mask : Word) (rank : Nat) : Removes m (m.disableMask (fun _ => []) v mask rank).2 := by
  unfold disableMask
  split
  · exact .refl m
  · exact removes_disableAll consistent v _

theorem removes_writeClearEnable {m : Machine σ} (consistent : Consistent m.dist) (v : Nat)
    (access : Access) (value : Word) : Removes m (m.writeClearEnable v access value).2 := by
  unfold writeClearEnable
  simp only
  split
  · exact .of_makes (C := fun _ => False) (.note m _) (fun _ _ => id) id
  · have stored : Removes m (m.modify (·.updateRank v (rankIndex Bank.enable.words access.position)
        fun rank => { rank with enable := rank.enable &&& ~~~value })) :=
      .modify m fun w => Distributor.inflight?_updateRank ..
    split
    · exact stored
    · exact stored.trans (removes_disableMask
        (consistent.apply (a := .store v _ _) trivial) v _ _)

theorem removed_write {m : Machine σ} (consistent : Consistent m.dist) {v offset : Nat}
    {width : Width} {value : Word} {w line : Nat}
    (made : Call.remove w line ∈
      (m.write v offset width value).2.calls.drop m.calls.length) :
    (m.write v offset width value).2.dist.onList w line = false := by
  rcases m.write_cases v offset width value with
    ⟨-, -, still | decoded⟩ | ⟨-, group, -, reached⟩
  · rw [still, List.drop_length] at made
    cases made
  · rw [decoded] at made
    cases (makes_decode m v offset width).sort_of_mem made
  · rw [reached] at made ⊢
    rw [← m.calls_note (.registerWritten v group.name (offset - group.first) value)] at made
    have may := (makes_writeRegister _ v _ value group.register).sort_of_mem made
    cases clears : group.register with
    | clearEnable =>
        rw [clears] at made
        exact (removes_writeClearEnable (m := m.note _) consistent v _ value).removed made
    | _ =>
        rw [clears] at may
        exact may.elim

theorem removed_perform {m : Machine σ} (consistent : Consistent m.dist) (operation : Operation)
    {v line : Nat}
    (made : Call.remove v line ∈ (m.perform operation).2.calls.drop m.calls.length) :
    (m.perform operation).2.dist.onList v line = false := by
  have may := (m.perform_makes operation).sort_of_mem made
  cases operation with
  | disableLines w mask rank =>
      have removes : Removes m (m.disableLines w mask rank).2 := by
        unfold disableLines disableLinesAmid
        split
        · exact .refl m
        · exact removes_disableMask consistent w mask rank
      exact removes.removed made
  | write w offset width value => exact removed_write consistent made
  | writeAt w address width value =>
      have here : (m.writeAt w address width value).2 = m ∨
          ∃ offset, (m.writeAt w address width value).2 = (m.write w offset width value).2 := by
        unfold writeAt
        split
        · exact .inl rfl
        · exact .inr ⟨_, rfl⟩
      have made : Call.remove v line ∈
        (m.writeAt w address width value).2.calls.drop m.calls.length := made
      show (m.writeAt w address width value).2.dist.onList v line = false
      rcases here with still | ⟨offset, same⟩
      · rw [still, List.drop_length] at made
        cases made
      · rw [same] at made ⊢
        exact removed_write consistent made
  | read | readAt | clearPending | freeVcpu => cases may
  | retire =>
      obtain ⟨priority, same⟩ := may
      cases same
  | _ => exact may.elim

end Machine

/-! ## Every operation -/

/-- The reasons for the calls that were made between two states of a machine. -/
structure Machine.Justified {σ : Type} (m m' : Machine σ) : Prop where
  /-- A line that was raised is on the list and in the hands of the VCPU as it was raised, and
  enabled. -/
  raised : ∀ {v line priority}, Call.raise v line priority ∈ m'.calls.drop m.calls.length →
    m'.dist.Lists v ⟨line, priority⟩ ∧
      ∃ p, m'.dist.line? v line = some p ∧ p.owner = some v ∧ p.priority = priority ∧
        p.status.enabled = true
  /-- A line that was raised again was on the list, and the list is as it was. -/
  again : ∀ {v line}, Call.raiseInflight v line ∈ m'.calls.drop m.calls.length →
    ∃ list, m.dist.inflight? v = some list ∧ m'.dist.inflight? v = some list ∧
      line ∈ list.lines
  /-- A line that was taken out of the queues is not on the list. -/
  removed : ∀ {v line}, Call.remove v line ∈ m'.calls.drop m.calls.length →
    m'.dist.onList v line = false

namespace Machine

variable {σ : Type} [Host σ]

/-- After every history, what an operation calls on the physical interface is justified when
it returns. -/
theorem justified_perform {config : Config} {host : σ} {m : Machine σ}
    (started : Machine.start config host = .ok m) (operations : List Operation)
    (operation : Operation) :
    (m.run operations).Justified ((m.run operations).perform operation).2 := by
  have consistent := consistent_run started operations
  exact ⟨raised_perform consistent operation,
    fun made => ((repeats_perform consistent operation).again made).2,
    removed_perform consistent operation⟩

/-- A software interrupt is sent to both VCPUs while VCPU 1 has it in delivery: it is raised
on VCPU 0, and again on VCPU 1. Then VCPU 1 disables it, which leaves it with VCPU 0. -/
theorem justified_perform_software :
    let m : Machine SteadyHost := .fresh (.forGuest 2) { up := [0, 1] }
    let history : List Operation := [.initVcpu 0, .initVcpu 1, .write 0 0x100 .word 8,
      .write 1 0x100 .word 8, .write 0 0x400 .word 0x20000000, .inject 1 3, .inject 1 9]
    let send : Operation := .write 0 0xf00 .word 0x30003
    let s := m.run history
    let t := m.run (history ++ [send])
    let u := (t.perform (.write 1 0x180 .word 8)).2
    t.calls = s.calls ++ [.raise 0 3 0x20, .unblock 0, .raiseInflight 1 3, .unblock 1] ∧
      s.Justified (s.perform send).2 ∧ u.calls = t.calls ++ [.remove 1 3] ∧ t.Justified u := by
  intro m history send s t u
  have started : Machine.start (.forGuest 2) ({ up := [0, 1] } : SteadyHost) = .ok m := rfl
  exact ⟨by decide +kernel, justified_perform started history send, by decide +kernel,
    justified_perform started (history ++ [send]) (.write 1 0x180 .word 8)⟩

end Machine

end VirtualGic
