/-
# Proofs.Course — every operation is a course of acts

For each function by which lines are raised, enabled and disabled, the acts it does and
the lines it does them on. A function that is told a number acts only on the lines that
its VCPU sees under it (`LineRef.Named`), and one that is told a mask only on those that
the mask names (`LineRef.Masked`).
-/
import VirtualGic.Proofs.Act
import VirtualGic.Proofs.Walk

namespace VirtualGic

set_option autoImplicit false

/-- The references that VCPU `v` sees under a number from `lines`. -/
def LineRef.Named (v : Nat) (lines : List Nat) (ref : LineRef) : Prop :=
  ref.SeenBy v ∧ ref.number ∈ lines

instance (v : Nat) (lines : List Nat) (ref : LineRef) : Decidable (ref.Named v lines) :=
  inferInstanceAs (Decidable (_ ∧ _))

/-- The references that VCPU `v` sees under a number that `mask` names in rank `rank`. -/
def LineRef.Masked (v : Nat) (mask : Word) (rank : Nat) (ref : LineRef) : Prop :=
  ∃ lines, maskedLines rank mask = .ok lines ∧ ref.Named v lines

/-- The references that VCPU `v` sees under a number whose enable bit a write at `position`
changes. `changed` tells, of the enable bits of a rank, which do. -/
def LineRef.Changed (d : Distributor) (v position : Nat) (changed : Word → Word)
    (ref : LineRef) : Prop :=
  ∃ rank, d.rank? v (rankIndex Bank.enable.words position) = some rank ∧
    ref.Masked v (changed rank.enable) (rankIndex Bank.enable.words position)

theorem LineRef.Named.of_lineRef? {d : Distributor} {v line : Nat} {ref : LineRef}
    {lines : List Nat} (found : d.lineRef? v line = some ref) (member : line ∈ lines) :
    ref.Named v lines := by
  obtain ⟨number, seen, -⟩ := Distributor.lineRef?_eq_some_iff.1 found
  exact ⟨seen, number ▸ member⟩

theorem LineRef.Named.of_resolve {d : Distributor} {v line : Nat} {ref : LineRef}
    (resolved : d.resolve v line = .ok ref) : ref.Named v [line] :=
  .of_lineRef? (Distributor.resolve_eq_ok_iff.1 resolved).2 List.mem_cons_self

theorem LineRef.Masked.mono {v rank : Nat} {small large : Word} {ref : LineRef}
    (within : ∀ bit, small.getLsbD bit = true → large.getLsbD bit = true)
    (nonzero : small ≠ 0) (masked : ref.Masked v small rank) : ref.Masked v large rank := by
  obtain ⟨lines, fits, seen, member⟩ := masked
  obtain ⟨more, fits', larger⟩ := maskedLines_mono within fits nonzero
  exact ⟨more, fits', seen, larger _ member⟩

namespace Machine

variable {σ : Type}

/-! ## Notes and reports -/

theorem steps_note (m : Machine σ) (n : Note) (harmless : ∀ line v, n ≠ .ownerMissing line v) :
    Steps Act.Idles m (m.note n) :=
  .single (a := .note n) ⟨fun line v same => absurd same (harmless line v), rfl, rfl⟩ trivial

theorem steps_touch (m : Machine σ) {ref : LineRef} (there : (m.dist.descriptor? ref).isSome = true)
    (report : Report) :
    Step m (.touch ref report) (m.modify (·.updateLine ref report.apply)) :=
  ⟨there, rfl, (List.append_nil _).symm⟩

variable [Host σ]

/-! ## Calls and questions -/

theorem steps_call (m : Machine σ) (c : Call) (plain : c.isRaise = false) :
    Steps Act.Idles m (m.call c) :=
  .single (a := .call c) ⟨plain, rfl, rfl⟩ trivial

theorem step_online (m : Machine σ) (v : Nat) : Step m .ask (m.online v).2 :=
  ⟨trivial, rfl, (List.append_nil _).symm⟩

theorem steps_kick (m : Machine σ) (v : Nat) : Steps Act.Idles m (m.kick v) := by
  have asked : Step m .ask (m.running v).2 := ⟨trivial, rfl, (List.append_nil _).symm⟩
  have woken : Steps Act.Idles m ((m.running v).2.call (.unblock v)) :=
    (Steps.single (K := Act.Idles) asked trivial).trans (steps_call _ _ rfl)
  unfold kick
  simp only
  split
  · exact woken
  · have here : Step ((m.running v).2.call (.unblock v)) .ask
        ((m.running v).2.call (.unblock v)).currentCpu.2 :=
      ⟨trivial, rfl, (List.append_nil _).symm⟩
    have looked := woken.trans (Steps.single (K := Act.Idles) here trivial)
    split
    · exact looked
    · exact looked.trans (steps_call _ _ rfl)

theorem steps_notify (m : Machine σ) (line holder : Nat) :
    Steps Act.Idles m (m.notify line holder) :=
  (steps_note m _ (by intros; simp)).trans (steps_kick _ holder)

theorem dist_notify (m : Machine σ) (line holder : Nat) : (m.notify line holder).dist = m.dist :=
  (steps_notify m line holder).dist_of_idles

/-! ## Raising a line -/

theorem step_retrigger (m : Machine σ) {ref : LineRef} {holder : Nat}
    (owned : (m.dist.descriptor ref).owner = some holder) :
    Step m (.retrigger holder ref) (m.retrigger ref (m.dist.descriptor ref).line holder) :=
  ⟨owned, rfl, rfl⟩

/-- Claiming a line changes its descriptor before the call and the list after it. The call
leaves the distributor alone, so both changes can be made together behind it. -/
theorem link_eq {m : Machine σ} {ref : LineRef} (v : Nat)
    (there : (m.dist.descriptor? ref).isSome = true) (priority : Byte) :
    m.link v ref (m.dist.descriptor ref).line priority =
      (if (m.dist.descriptor ref).status.enabled then
        m.call (.raise v (m.dist.descriptor ref).line priority)
      else m).modify (Act.link v ref priority).apply := by
  have flags : ((m.dist.updateLine ref (Descriptor.claim v priority)).descriptor
      ref).status.enabled = (m.dist.descriptor ref).status.enabled := by
    rw [Distributor.descriptor_updateLine_self there]
    rfl
  unfold link
  simp only [dist_modify, flags]
  by_cases enabled : (m.dist.descriptor ref).status.enabled = true
  · rw [if_pos enabled, if_pos enabled]
    rfl
  · rw [if_neg enabled, if_neg enabled]
    rfl

theorem step_link (m : Machine σ) {ref : LineRef} {v : Nat}
    (there : (m.dist.descriptor? ref).isSome = true) (seen : ref.SeenBy v)
    (present : (m.dist.vcpu? v).isSome = true) (free : (m.dist.descriptor ref).owner = none) :
    Step m (.link v ref (m.dist.priorityOf v (m.dist.descriptor ref).line))
      (m.link v ref (m.dist.descriptor ref).line
        (m.dist.priorityOf v (m.dist.descriptor ref).line)) := by
  have allowed : (Act.link v ref (m.dist.priorityOf v (m.dist.descriptor ref).line)).Allowed
      m.dist := ⟨there, seen, present, free, rfl⟩
  rw [link_eq v there]
  by_cases enabled : (m.dist.descriptor ref).status.enabled = true
  · rw [if_pos enabled]
    exact ⟨allowed, rfl, by simp only [Act.events, if_pos enabled]; rfl⟩
  · rw [if_neg enabled]
    exact ⟨allowed, rfl, by simp only [Act.events, if_neg enabled, List.append_nil]; rfl⟩

/-! ## Delivery, by where the line is -/

theorem deliver_of_free {m : Machine σ} {v : Nat} {ref : LineRef}
    (free : (m.dist.descriptor ref).owner = none) :
    m.deliver [] v ref =
      if (m.online v).1 then
        ((m.online v).2.link v ref (m.dist.descriptor ref).line
          (m.dist.priorityOf v (m.dist.descriptor ref).line)).notify
            (m.dist.descriptor ref).line v
      else (m.online v).2.note (.lineDropped (m.dist.descriptor ref).line v) := by
  unfold deliver
  rw [lockHolder_of_holder (Distributor.holder_of_owner_none free v)]
  simp only [Descriptor.isInflight, free, Option.isSome_none, Bool.false_eq_true, if_false]

omit [Host σ] in
theorem lockHolder_of_owner {m : Machine σ} {v holder : Nat} {ref : LineRef}
    (owned : (m.dist.descriptor ref).owner = some holder)
    (alive : (m.dist.vcpu? holder).isSome = true) :
    m.lockHolder v ref [] = (some holder, m) :=
  lockHolder_of_holder (by simp only [Distributor.holder, owned, alive, if_true])

omit [Host σ] in
theorem lockHolder_of_missing {m : Machine σ} {v holder : Nat} {ref : LineRef}
    (owned : (m.dist.descriptor ref).owner = some holder) (absent : m.dist.vcpu? holder = none) :
    m.lockHolder v ref [] =
      (none, m.note (.ownerMissing (m.dist.descriptor ref).line holder)) := by
  simp [lockHolder, Distributor.holder, owned, absent]

theorem deliver_of_held {m : Machine σ} {v holder : Nat} {ref : LineRef}
    (owned : (m.dist.descriptor ref).owner = some holder)
    (alive : (m.dist.vcpu? holder).isSome = true) :
    m.deliver [] v ref =
      (m.retrigger ref (m.dist.descriptor ref).line holder).notify
        (m.dist.descriptor ref).line holder := by
  unfold deliver
  rw [lockHolder_of_owner owned alive]
  simp only [Descriptor.isInflight, owned, Option.isSome_some, if_true]

theorem deliver_of_missing {m : Machine σ} {v holder : Nat} {ref : LineRef}
    (owned : (m.dist.descriptor ref).owner = some holder) (absent : m.dist.vcpu? holder = none) :
    m.deliver [] v ref = m.note (.ownerMissing (m.dist.descriptor ref).line holder) := by
  unfold deliver
  rw [lockHolder_of_missing owned absent]

omit [Host σ] in
theorem steps_ownerMissing (m : Machine σ) {holder : Nat} {ref : LineRef}
    (owned : (m.dist.descriptor ref).owner = some holder) (absent : m.dist.vcpu? holder = none) :
    Steps Act.Idles m (m.note (.ownerMissing (m.dist.descriptor ref).line holder)) := by
  refine .single (K := Act.Idles) (a := .note _) ⟨?_, rfl, rfl⟩ trivial
  rintro line v ⟨⟩
  exact ⟨absent, ref, owned⟩

/-- A line that nobody holds is claimed by the VCPU it is raised on, if that is online. -/
theorem dist_deliver_of_free {m : Machine σ} {v : Nat} {ref : LineRef} (seen : ref.SeenBy v)
    (there : (m.dist.descriptor? ref).isSome = true) (present : (m.dist.vcpu? v).isSome = true)
    (free : (m.dist.descriptor ref).owner = none) (up : (m.online v).1 = true) :
    (m.deliver [] v ref).dist =
      (Act.link v ref (m.dist.priorityOf v (m.dist.descriptor ref).line)).apply m.dist := by
  rw [deliver_of_free free, if_pos up, dist_notify]
  exact (step_link (m.online v).2 there seen present free).dist

/-- A line that somebody holds is raised again, and stays where it is. -/
theorem dist_deliver_of_held {m : Machine σ} {v holder : Nat} {ref : LineRef}
    (owned : (m.dist.descriptor ref).owner = some holder)
    (alive : (m.dist.vcpu? holder).isSome = true) :
    (m.deliver [] v ref).dist = m.dist.updateLine ref Descriptor.setQueued := by
  rw [deliver_of_held owned alive, dist_notify]
  rfl

/-- Raising the line `ref` takes acts on it alone. -/
theorem steps_deliver (m : Machine σ) {v : Nat} {ref : LineRef} (seen : ref.SeenBy v)
    (there : (m.dist.descriptor? ref).isSome = true) (present : (m.dist.vcpu? v).isSome = true) :
    Steps (Act.Delivers (· = ref)) m (m.deliver [] v ref) := by
  have idles : ∀ {a b : Machine σ}, Steps Act.Idles a b → Steps (Act.Delivers (· = ref)) a b :=
    Steps.mono fun _ idle => idle.delivers _
  cases owner : (m.dist.descriptor ref).owner with
  | none =>
      have asked := idles (.single (K := Act.Idles) (step_online m v) trivial)
      rw [deliver_of_free owner]
      split
      · have linked := step_link (m.online v).2 there seen present owner
        exact (asked.trans (.single (K := Act.Delivers (· = ref)) linked rfl)).trans
          (idles (steps_notify _ _ _))
      · exact asked.trans (idles (steps_note _ _ (by intros; simp)))
  | some holder =>
      by_cases alive : (m.dist.vcpu? holder).isSome = true
      · rw [deliver_of_held owner alive]
        exact (Steps.single (K := Act.Delivers (· = ref)) (step_retrigger m owner) rfl).trans
          (idles (steps_notify _ _ _))
      · have absent : m.dist.vcpu? holder = none := by simpa using alive
        rw [deliver_of_missing owner absent]
        exact idles (steps_ownerMissing m owner absent)

/-! ## Raising a line by its number -/

theorem inject_of_resolve {m : Machine σ} {v line : Nat} {ref : LineRef}
    (resolved : m.dist.resolve v line = .ok ref) :
    m.inject v line = (.ok (), m.deliver [] v ref) := by
  unfold inject injectAmid
  rw [resolved]

theorem steps_inject (m : Machine σ) (v line : Nat) :
    Steps (Act.Delivers (LineRef.Named v [line])) m (m.inject v line).2 := by
  unfold inject injectAmid
  split
  · exact .refl m
  · rename_i ref resolved
    obtain ⟨present, number, seen, there⟩ := Distributor.found_of_resolve resolved
    refine (steps_deliver m seen there present).mono fun a => Act.Delivers.mono ?_
    rintro _ rfl
    exact ⟨seen, by simp [number]⟩

theorem dist_inject_of_free {m : Machine σ} {v line : Nat} {ref : LineRef}
    (resolved : m.dist.resolve v line = .ok ref) (free : (m.dist.descriptor ref).owner = none)
    (up : (m.online v).1 = true) :
    (m.inject v line).2.dist =
      (Act.link v ref (m.dist.priorityOf v (m.dist.descriptor ref).line)).apply m.dist := by
  obtain ⟨present, -, seen, there⟩ := Distributor.found_of_resolve resolved
  rw [inject_of_resolve resolved]
  exact dist_deliver_of_free seen there present free up

theorem steps_firstOnline (m : Machine σ) (vs : List Nat) :
    Steps Act.Idles m (m.firstOnline vs).2 := by
  induction vs generalizing m with
  | nil => exact .refl m
  | cons v rest ih =>
      unfold firstOnline
      split
      · exact ih m
      · have asked := Steps.single (K := Act.Idles) (step_online m v) trivial
        simp only
        split
        · exact asked
        · exact asked.trans (ih _)

theorem dist_firstOnline (m : Machine σ) (vs : List Nat) :
    (m.firstOnline vs).2.dist = m.dist :=
  (steps_firstOnline m vs).dist_of_idles

theorem steps_injectSpi (m : Machine σ) (line : Nat) :
    Steps (Act.Delivers (·.number = line)) m (m.injectSpi line).2 := by
  unfold injectSpi
  split
  · exact .refl m
  · split
    · exact .refl m
    · split
      · exact .refl m
      · split
        · exact .refl m
        · have found := steps_firstOnline m
          refine ((found _).mono fun a idle => idle.delivers _).trans
            ((steps_inject _ _ line).mono fun a => Act.Delivers.mono ?_)
          rintro ref ⟨-, member⟩
          simpa using member

/-! ## Software interrupts -/

theorem steps_onlineAmong (m : Machine σ) (vs : List Nat) :
    Steps Act.Idles m (m.onlineAmong vs).2 := by
  induction vs generalizing m with
  | nil => exact .refl m
  | cons v rest ih =>
      exact (Steps.single (K := Act.Idles) (step_online m v) trivial).trans (ih _)

theorem steps_softwareTargets (m : Machine σ) (v : Nat) (value : Word) (choice : TargetFilter) :
    Steps Act.Idles m (m.softwareTargets v value choice).2 := by
  cases choice with
  | list | selfOnly => exact .refl m
  | allButSelf => exact steps_onlineAmong m _

theorem steps_sendTo (v : Nat) (value : Word) (m : Machine σ) (target : Nat) :
    Steps (Act.Delivers (·.number = (SoftwareInterrupt.line.read value).toNat)) m
      (sendTo v value m target) := by
  have idles : ∀ {a b : Machine σ}, Steps Act.Idles a b →
      Steps (Act.Delivers (·.number = (SoftwareInterrupt.line.read value).toNat)) a b :=
    Steps.mono fun _ idle => idle.delivers _
  unfold sendTo
  split
  · exact idles (steps_note m _ (by intros; simp))
  · rename_i state present
    have asked := idles (.single (K := Act.Idles) (step_online m target) trivial)
    simp only
    split
    · split
      · exact asked
      · rename_i ref found
        obtain ⟨number, seen, there⟩ := Distributor.lineRef?_eq_some_iff.1 found
        have noted := idles (steps_note (m.online target).2
          (.softwareInterrupt (SoftwareInterrupt.line.read value).toNat v target) (by intros; simp))
        have alive : (m.dist.vcpu? target).isSome = true :=
          Option.isSome_iff_exists.2 ⟨state, present⟩
        refine (asked.trans noted).trans ((steps_deliver ((m.online target).2.note
          (.softwareInterrupt (SoftwareInterrupt.line.read value).toNat v target))
          seen there alive).mono fun a => Act.Delivers.mono ?_)
        rintro _ rfl
        exact number
    · exact asked.trans (idles (steps_note _ _ (by intros; simp)))

theorem steps_sendSoftware (v : Nat) (value : Word) (m : Machine σ) :
    Steps (Act.Delivers (·.number = (SoftwareInterrupt.line.read value).toNat)) m
      (m.sendSoftware v value).2 := by
  unfold sendSoftware
  split
  · exact (steps_note m _ (by intros; simp)).mono fun a idle => idle.delivers _
  · rename_i choice chosen
    have selected := (steps_softwareTargets m v value choice).mono
      (fun a idle => idle.delivers (·.number = (SoftwareInterrupt.line.read value).toNat))
    simp only
    split
    · exact selected
    · exact selected.trans (Steps.foldl (P := fun _ => True)
        (fun m target _ _ => steps_sendTo v value m target) (fun _ _ _ _ => trivial) _ trivial)

/-! ## Enabling and disabling -/

theorem vcpu?_isSome_updateLine (d : Distributor) (ref : LineRef) (f : Descriptor → Descriptor)
    (v : Nat) : ((d.updateLine ref f).vcpu? v).isSome = (d.vcpu? v).isSome := by
  rw [← Distributor.inflight?_isSome, ← Distributor.inflight?_isSome,
    Distributor.inflight?_updateLine]

omit [Host σ] in
/-- VCPUs are made and freed by two acts only. -/
theorem vcpu?_isSome_of_steps {K : Act → Prop} {m m' : Machine σ}
    (fixed : ∀ a, K a → match a with | .allocate .. | .release _ => False | _ => True)
    (steps : Steps K m m') (v : Nat) : (m'.dist.vcpu? v).isSome = (m.dist.vcpu? v).isSome := by
  rw [← Distributor.inflight?_isSome, ← Distributor.inflight?_isSome]
  refine steps.kept (P := fun s => (s.dist.inflight? v).isSome = (m.dist.inflight? v).isSome) ?_ rfl
  intro b a c kind step before
  rw [step.dist, Act.inflight?_isSome_apply v (fixed a kind)]
  exact before

omit [Host σ] in
theorem present_of_steps {K : Act → Prop} {m m' : Machine σ} {v : Nat}
    (fixed : ∀ a, K a → match a with | .allocate .. | .release _ => False | _ => True)
    (steps : Steps K m m') (present : (m.dist.vcpu? v).isSome = true) :
    (m'.dist.vcpu? v).isSome = true :=
  (vcpu?_isSome_of_steps fixed steps v).trans present

theorem trace_raiseHidden (m : Machine σ) (ref : LineRef) :
    (m.raiseHidden ref).trace = m.trace ++ Act.shows m.dist (m.dist.descriptor ref) := by
  unfold raiseHidden Act.shows
  generalize m.dist.descriptor ref = p
  cases owned : p.owner with
  | none => simp only [owned, List.append_nil]
  | some owner =>
      simp only [owned]
      by_cases hidden : ((m.dist.vcpu? owner).isSome && !p.status.visible) = true
      · rw [if_pos hidden, if_pos hidden]
        rfl
      · rw [if_neg hidden, if_neg hidden, List.append_nil]

theorem dist_raiseHidden (m : Machine σ) (ref : LineRef) : (m.raiseHidden ref).dist = m.dist := by
  unfold raiseHidden
  simp only
  split
  · rfl
  · split <;> rfl

/-- The host may have been asked about the upcall in between, so the machine that shows the
line is any one that agrees with `m` on the rest. -/
theorem step_enable {m b : Machine σ} {ref : LineRef}
    (there : (m.dist.descriptor? ref).isSome = true)
    (dist : b.dist = m.dist.updateLine ref (Descriptor.setEnabled true))
    (trace : b.trace = m.trace) : Step m (.enable ref) (b.raiseHidden ref) := by
  refine ⟨there, (dist_raiseHidden b ref).trans dist, ?_⟩
  rw [trace_raiseHidden, trace, dist, Distributor.descriptor_updateLine_self there]
  simp only [Act.events, Act.shows, Descriptor.setEnabled, vcpu?_isSome_updateLine]

theorem raiseHidden_of_free {m : Machine σ} {ref : LineRef}
    (free : (m.dist.descriptor ref).isInflight = false) : m.raiseHidden ref = m := by
  have none : (m.dist.descriptor ref).owner = none := by
    simpa [Descriptor.isInflight] using free
  unfold raiseHidden
  simp only [none]

theorem steps_showEnabled (m : Machine σ) {v : Nat} (line : Nat) {ref : LineRef}
    (seen : ref.SeenBy v)
    (there : (m.dist.descriptor? ref).isSome = true) (present : (m.dist.vcpu? v).isSome = true) :
    Steps (Act.Enables (· = ref)) m
      ((m.modify (·.updateLine ref (Descriptor.setEnabled true))).showEnabled v line ref) := by
  have shown : ∀ b : Machine σ, b.dist = m.dist.updateLine ref (Descriptor.setEnabled true) →
      b.trace = m.trace → Steps (Act.Enables (· = ref)) m (b.raiseHidden ref) :=
    fun b dist trace => .single (step_enable there dist trace) rfl
  unfold showEnabled
  split
  · simp only
    split
    · rename_i latched
      simp only [Bool.and_eq_true, Bool.not_eq_true'] at latched
      have first := shown ((m.modify (·.updateLine ref (Descriptor.setEnabled true))).upcallPending
        v).2 rfl rfl
      rw [raiseHidden_of_free latched.2] at first
      refine first.trans ((steps_deliver _ seen ?_ ?_).mono fun a delivers => delivers.enables)
      · simp only [dist_upcallPending, dist_modify, Distributor.descriptor?_updateLine_self]
        simpa using there
      · simp only [dist_upcallPending, dist_modify, vcpu?_isSome_updateLine]
        exact present
    · exact shown _ rfl rfl
  · exact shown _ rfl rfl

theorem steps_enablePhysical (m : Machine σ) (ref : LineRef) :
    Steps Act.Idles m (m.enablePhysical ref) := by
  unfold enablePhysical
  split
  · exact .refl _
  · exact steps_call _ _ rfl

theorem steps_disablePhysical (m : Machine σ) (ref : LineRef) :
    Steps Act.Idles m (m.disablePhysical ref) := by
  unfold disablePhysical
  split
  · exact .refl _
  · exact steps_call _ _ rfl

theorem steps_enableLine {v : Nat} (m : Machine σ) (line : Nat)
    (present : (m.dist.vcpu? v).isSome = true) :
    Steps (Act.Enables (LineRef.Named v [line])) m (enableLine v m line) := by
  unfold enableLine
  split
  · exact .refl m
  · rename_i ref found
    obtain ⟨number, seen, there⟩ := Distributor.lineRef?_eq_some_iff.1 found
    have named : ref.Named v [line] := .of_lineRef? found List.mem_cons_self
    have shown : Steps (Act.Enables (LineRef.Named v [line])) m _ :=
      (steps_showEnabled m line seen there present).mono fun a => Act.Enables.mono <| by
        rintro _ rfl
        exact named
    exact shown.trans ((steps_enablePhysical _ ref).mono fun a idle => idle.enables _)

theorem steps_enableMask {v rank : Nat} {mask : Word} (m : Machine σ)
    (present : (m.dist.vcpu? v).isSome = true) :
    Steps (Act.Enables (LineRef.Masked v mask rank)) m (m.enableMask v mask rank).2 := by
  unfold enableMask
  split
  · exact .refl m
  · rename_i lines fits
    refine Steps.foldl (P := fun m => (m.dist.vcpu? v).isSome = true) ?_ ?_ m present
    · intro m line member present
      refine (steps_enableLine m line present).mono fun a => Act.Enables.mono ?_
      rintro ref ⟨seen, number⟩
      obtain rfl : ref.number = line := by simpa using number
      exact ⟨lines, fits, seen, member⟩
    · intro m m' steps before
      refine present_of_steps ?_ steps before
      intro a kind
      cases a <;> trivial

theorem dequeue_of_free {m : Machine σ} {v : Nat} {ref : LineRef} (line : Nat)
    (free : (m.dist.descriptor ref).owner = none) :
    m.dequeue [] v ref line = m.call (.remove v line) := by
  unfold dequeue
  rw [lockHolder_of_holder (Distributor.holder_of_owner_none free v)]
  simp only [unlink, free]
  rw [if_neg (by simp)]

theorem dequeue_of_held {m : Machine σ} {v holder : Nat} {ref : LineRef}
    (owned : (m.dist.descriptor ref).owner = some holder)
    (alive : (m.dist.vcpu? holder).isSome = true) :
    m.dequeue [] v ref ref.number =
      (m.modify (Act.unlink holder ref).apply).call (.remove holder ref.number) := by
  unfold dequeue
  rw [lockHolder_of_owner owned alive]
  simp only [unlink]
  rw [if_pos owned]
  rfl

theorem dequeue_of_missing {m : Machine σ} {v holder : Nat} {ref : LineRef} (line : Nat)
    (owned : (m.dist.descriptor ref).owner = some holder) (absent : m.dist.vcpu? holder = none) :
    m.dequeue [] v ref line = m.note (.ownerMissing (m.dist.descriptor ref).line holder) := by
  unfold dequeue
  rw [lockHolder_of_missing owned absent]

theorem steps_dequeue (m : Machine σ) {v line : Nat} {ref : LineRef}
    (number : ref.number = line) :
    Steps (fun a => a.Idles ∨ ∃ holder, a = .unlink holder ref) m (m.dequeue [] v ref line) := by
  subst number
  have idles : ∀ {a b : Machine σ}, Steps Act.Idles a b →
      Steps (fun a => a.Idles ∨ ∃ holder, a = .unlink holder ref) a b :=
    Steps.mono fun _ idle => .inl idle
  cases owner : (m.dist.descriptor ref).owner with
  | none =>
      rw [dequeue_of_free _ owner]
      exact idles (steps_call _ _ rfl)
  | some holder =>
      by_cases alive : (m.dist.vcpu? holder).isSome = true
      · rw [dequeue_of_held owner alive]
        have step : Step m (.unlink holder ref) (m.modify (Act.unlink holder ref).apply) :=
          ⟨owner, rfl, (List.append_nil _).symm⟩
        exact (Steps.single step (.inr ⟨holder, rfl⟩)).trans (idles (steps_call _ _ rfl))
      · have absent : m.dist.vcpu? holder = none := by simpa using alive
        rw [dequeue_of_missing _ owner absent]
        exact idles (steps_ownerMissing m owner absent)

theorem steps_disableLine {v : Nat} (m : Machine σ) (line : Nat) :
    Steps (Act.Disables (LineRef.Named v [line])) m (disableLine (fun _ => []) v m line) := by
  unfold disableLine
  split
  · exact .refl m
  · rename_i ref found
    obtain ⟨number, seen, there⟩ := Distributor.lineRef?_eq_some_iff.1 found
    have named : ref.Named v [line] := .of_lineRef? found List.mem_cons_self
    have disabled : Steps (Act.Disables (LineRef.Named v [line])) m _ :=
      .single (steps_touch m there .disabled) named
    have dequeued : Steps (Act.Disables (LineRef.Named v [line])) _ _ :=
      (steps_dequeue (m.modify (·.updateLine ref (Descriptor.setEnabled false)))
        (v := v) number).mono <| by
          rintro a (idle | ⟨holder, rfl⟩)
          · exact idle.disables _
          · exact named
    exact (disabled.trans dequeued).trans
      ((steps_disablePhysical _ ref).mono fun a idle => idle.disables _)

theorem steps_disableMask {v rank : Nat} {mask : Word} (m : Machine σ) :
    Steps (Act.Disables (LineRef.Masked v mask rank)) m
      (m.disableMask (fun _ => []) v mask rank).2 := by
  unfold disableMask
  split
  · exact .refl m
  · rename_i lines fits
    refine Steps.foldl (P := fun _ => True) ?_ (fun _ _ _ _ => trivial) m trivial
    intro m line member _
    refine (steps_disableLine m line).mono fun a => Act.Disables.mono ?_
    rintro ref ⟨seen, number⟩
    obtain rfl : ref.number = line := by simpa using number
    exact ⟨lines, fits, seen, member⟩

end Machine

end VirtualGic
