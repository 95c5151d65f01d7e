/-
# Proofs.Perform — what each operation may take

`Operation.Takes` lists the acts that an operation may take from a given state, and
`perform_steps` says that carrying the operation out is some of them, one after the
other. What an operation does not take it does not do: that is how later modules bound
what an operation can disturb.

`grows_or_shrinks` is the shape they have in common. No operation both puts a line on a
list and takes one off, so an entry that is on a list before and after an operation was
there all along.
-/
import VirtualGic.Proofs.Course

namespace VirtualGic

set_option autoImplicit false

/-- Whether an access of this width at `offset` reaches a register. -/
def Group.Accepts (group : Group) (offset : Nat) (width : Width) : Prop :=
  Frame.group? offset = some group ∧ group.widths.allow width = true

/-- The acts of VCPU `v` writing `value` at `position` in a group of this register. -/
def Register.Takes (d : Distributor) (v position : Nat) (value : Word) : Register → Act → Prop
  | .control, a => a.Idles ∨ ∃ enabled, a = .control enabled
  | .setEnable, a =>
      (∃ f, a = .store v (rankIndex Bank.enable.words position) f) ∨
        a.Enables (LineRef.Changed d v position (value &&& ~~~·))
  | .clearEnable, a =>
      (∃ f, a = .store v (rankIndex Bank.enable.words position) f) ∨
        a.Disables (LineRef.Changed d v position (value &&& ·))
  | .clearActive, a | .priority, a | .targets, a | .trigger, a =>
      a.Idles ∨ ∃ index f, a = .store v index f ∧ ∀ rank, (f rank).enable = rank.enable
  | .softwareInterrupt, a =>
      a.Delivers (·.number = (SoftwareInterrupt.line.read value).toNat)
  | _, a => a.Idles

/-- The acts of VCPU `v` writing `value` at `offset` of the frame. -/
def Act.Writes (d : Distributor) (v offset : Nat) (width : Width) (value : Word) (a : Act) :
    Prop :=
  a.Idles ∨ (d.vcpu? v).isSome = true ∧ ∃ group : Group, group.Accepts offset width ∧
    group.register.Takes d v (offset - group.first) value a

/-- The acts that an operation may take in the state `d`. -/
def Operation.Takes (d : Distributor) : Operation → Act → Prop
  | .initVcpu v, a => a.Idles ∨ ∃ vcpu, a = .allocate v vcpu
  | .freeVcpu v, a => a.Idles ∨ a = .clear v ∨ a = .release v
  | .read .., a | .readAt .., a | .inflightLines _, a | .pendingStatus .., a => a.Idles
  | .write v offset width value, a => a.Writes d v offset width value
  | .writeAt v address width value, a =>
      ∃ offset, d.config.frameOffset address = .ok offset ∧ a.Writes d v offset width value
  | .inject v line, a => a.Delivers (LineRef.Named v [line])
  | .injectSpi line, a => a.Delivers (·.number = line)
  | .dispatchSoftware _ value, a =>
      a.Delivers (·.number = (SoftwareInterrupt.line.read value).toNat)
  | .enableLines v mask rank, a =>
      (d.vcpu? v).isSome = true ∧ a.Enables (LineRef.Masked v mask rank)
  | .disableLines v mask rank, a =>
      (d.vcpu? v).isSome = true ∧ a.Disables (LineRef.Masked v mask rank)
  | .clearPending v, a => a.Idles ∨ a = .clear v
  | .setVisible v line visible, a =>
      ∃ ref, d.resolve v line = .ok ref ∧ a = .touch ref (.visible visible)
  | .setActive v line active, a =>
      ∃ ref, d.resolve v line = .ok ref ∧ a = .touch ref (.active active)
  | .routePhysical v line irq, a =>
      a.Idles ∨ ∃ ref, d.resolve v line = .ok ref ∧ a = .touch ref (.routed irq)
  | .unroutePhysical v line, a =>
      ∃ ref, d.resolve v line = .ok ref ∧ a = .touch ref .unrouted
  | .retire v line, a =>
      ∃ ref, d.resolve v line = .ok ref ∧
        if (d.descriptor ref).owner = some v ∧
            ((d.descriptor ref).status.queued && (d.descriptor ref).status.enabled) = true then
          a = .keep v ref
        else a = .touch ref .completed ∨ a = .unlink v ref

/-! ## Growing and shrinking -/

namespace Act

theorem Idles.grows {a : Act} (idles : a.Idles) : a.Grows := by
  cases a <;> trivial

theorem Idles.shrinks {a : Act} (idles : a.Idles) : a.Shrinks := by
  cases a <;> trivial

theorem Enables.grows {a : Act} {S : LineRef → Prop} (enables : a.Enables S) : a.Grows := by
  cases a <;> trivial

theorem Delivers.grows {a : Act} {S : LineRef → Prop} (delivers : a.Delivers S) : a.Grows :=
  delivers.enables.grows

theorem Disables.shrinks {a : Act} {S : LineRef → Prop} (disables : a.Disables S) :
    a.Shrinks := by
  cases a <;> trivial

end Act

theorem Register.grows_or_shrinks (d : Distributor) (v position : Nat) (value : Word)
    (register : Register) :
    (∀ a, register.Takes d v position value a → a.Grows) ∨
      (∀ a, register.Takes d v position value a → a.Shrinks) := by
  cases register with
  | control =>
      refine .inl ?_
      rintro a (idle | ⟨enabled, rfl⟩)
      · exact idle.grows
      · trivial
  | setEnable =>
      refine .inl ?_
      rintro a (⟨f, rfl⟩ | enables)
      · trivial
      · exact enables.grows
  | clearEnable =>
      refine .inr ?_
      rintro a (⟨f, rfl⟩ | disables)
      · trivial
      · exact disables.shrinks
  | clearActive | priority | targets | trigger =>
      refine .inl ?_
      rintro a (idle | ⟨index, f, rfl, -⟩)
      · exact idle.grows
      · trivial
  | softwareInterrupt => exact .inl fun a delivers => Act.Delivers.grows delivers
  | _ => exact .inl fun a idle => Act.Idles.grows idle

theorem Act.Writes.grows_or_shrinks (d : Distributor) (v offset : Nat) (width : Width)
    (value : Word) :
    (∀ a, Act.Writes d v offset width value a → a.Grows) ∨
      (∀ a, Act.Writes d v offset width value a → a.Shrinks) := by
  cases found : Frame.group? offset with
  | none =>
      refine .inl ?_
      rintro a (idle | ⟨-, group, ⟨found', -⟩, -⟩)
      · exact idle.grows
      · rw [found] at found'
        cases found'
  | some group =>
      have only : ∀ a, Act.Writes d v offset width value a →
          a.Idles ∨ group.register.Takes d v (offset - group.first) value a := by
        rintro a (idle | ⟨-, group', ⟨found', -⟩, takes⟩)
        · exact .inl idle
        · rw [found] at found'
          cases found'
          exact .inr takes
      rcases group.register.grows_or_shrinks d v (offset - group.first) value with
        grows | shrinks
      · exact .inl fun a writes => (only a writes).elim Act.Idles.grows (grows a)
      · exact .inr fun a writes => (only a writes).elim Act.Idles.shrinks (shrinks a)

/-- No operation both puts a line on a list and takes one off. -/
theorem Operation.grows_or_shrinks (d : Distributor) (operation : Operation) :
    (∀ a, operation.Takes d a → a.Grows) ∨ (∀ a, operation.Takes d a → a.Shrinks) := by
  cases operation with
  | initVcpu v =>
      refine .inl ?_
      rintro a (idle | ⟨vcpu, rfl⟩)
      · exact idle.grows
      · trivial
  | freeVcpu v =>
      refine .inr ?_
      rintro a (idle | rfl | rfl)
      · exact idle.shrinks
      · trivial
      · trivial
  | clearPending v =>
      refine .inr ?_
      rintro a (idle | rfl)
      · exact idle.shrinks
      · trivial
  | read | readAt | inflightLines | pendingStatus =>
      exact .inl fun a idle => Act.Idles.grows idle
  | write v offset width value => exact Act.Writes.grows_or_shrinks d v offset width value
  | writeAt v address width value =>
      cases inside : d.config.frameOffset address with
      | error error =>
          refine .inl ?_
          rintro a ⟨offset, inside', -⟩
          rw [inside] at inside'
          cases inside'
      | ok offset =>
          have only : ∀ a, (Operation.writeAt v address width value).Takes d a →
              a.Writes d v offset width value := by
            rintro a ⟨offset', inside', writes⟩
            rw [inside] at inside'
            cases inside'
            exact writes
          exact (Act.Writes.grows_or_shrinks d v offset width value).imp
            (fun grows a takes => grows a (only a takes))
            (fun shrinks a takes => shrinks a (only a takes))
  | inject | injectSpi | dispatchSoftware =>
      exact .inl fun a delivers => Act.Delivers.grows delivers
  | enableLines => exact .inl fun a takes => takes.2.grows
  | disableLines => exact .inr fun a takes => takes.2.shrinks
  | setVisible | setActive | unroutePhysical =>
      refine .inl ?_
      rintro a ⟨ref, -, rfl⟩
      trivial
  | routePhysical =>
      refine .inl ?_
      rintro a (idle | ⟨ref, -, rfl⟩)
      · exact idle.grows
      · trivial
  | retire v line =>
      by_cases held : ∃ ref, d.resolve v line = .ok ref ∧ (d.descriptor ref).owner = some v ∧
          ((d.descriptor ref).status.queued && (d.descriptor ref).status.enabled) = true
      · obtain ⟨ref, resolved, kept⟩ := held
        refine .inl ?_
        rintro a ⟨ref', resolved', takes⟩
        obtain rfl := Except.ok.inj (resolved.symm.trans resolved')
        rw [if_pos kept] at takes
        rw [takes]
        trivial
      · refine .inr ?_
        rintro a ⟨ref, resolved, takes⟩
        rw [if_neg (fun kept => held ⟨ref, resolved, kept⟩)] at takes
        rcases takes with rfl | rfl <;> trivial

/-! ## Reports -/

theorem Register.disabled_of_takes {d : Distributor} {v position : Nat} {value : Word}
    {register : Register} {ref : LineRef} {report : Report}
    (takes : register.Takes d v position value (.touch ref report)) : report = .disabled := by
  cases register with
  | clearEnable =>
      obtain ⟨f, same⟩ | masked := takes
      · cases same
      · cases report with
        | disabled => rfl
        | _ => exact masked.elim
  | setEnable =>
      obtain ⟨f, same⟩ | masked := takes
      · cases same
      · exact masked.elim
  | control =>
      obtain idle | ⟨enabled, same⟩ := takes
      · exact idle.elim
      · cases same
  | clearActive | priority | targets | trigger =>
      obtain idle | ⟨index, f, same, -⟩ := takes
      · exact idle.elim
      · cases same
  | _ => exact takes.elim

theorem Act.Writes.disabled_of_touch {d : Distributor} {v offset : Nat} {width : Width}
    {value : Word} {ref : LineRef} {report : Report}
    (writes : Act.Writes d v offset width value (.touch ref report)) : report = .disabled := by
  rcases writes with idle | ⟨-, group, -, takes⟩
  · exact idle.elim
  · exact Register.disabled_of_takes takes

/-- Lines enter list registers, and are acknowledged, only by report. -/
theorem Operation.reports_of_takes {d : Distributor} {operation : Operation} {ref : LineRef}
    {report : Report} (raises : report = .visible true ∨ report = .active true)
    (takes : operation.Takes d (.touch ref report)) :
    (∃ v line, operation = .setVisible v line true ∧ report = .visible true) ∨
      ∃ v line, operation = .setActive v line true ∧ report = .active true := by
  have calm : report ≠ .disabled := by rcases raises with rfl | rfl <;> simp
  cases operation with
  | setVisible v line visible =>
      obtain ⟨ref, -, same⟩ := takes
      cases same
      obtain rfl : visible = true := by simpa using raises
      exact .inl ⟨v, line, rfl, rfl⟩
  | setActive v line active =>
      obtain ⟨ref, -, same⟩ := takes
      cases same
      obtain rfl : active = true := by simpa using raises
      exact .inr ⟨v, line, rfl, rfl⟩
  | unroutePhysical =>
      obtain ⟨ref, -, same⟩ := takes
      cases same
      simp at raises
  | routePhysical =>
      obtain idle | ⟨ref, -, same⟩ := takes
      · exact idle.elim
      · cases same
        simp at raises
  | retire v line =>
      obtain ⟨ref, -, takes⟩ := takes
      split at takes
      · cases takes
      · rcases takes with same | same
        · cases same
          simp at raises
        · cases same
  | initVcpu =>
      obtain idle | ⟨vcpu, same⟩ := takes
      · exact idle.elim
      · cases same
  | freeVcpu =>
      obtain idle | same | same := takes
      · exact idle.elim
      · cases same
      · cases same
  | clearPending =>
      obtain idle | same := takes
      · exact idle.elim
      · cases same
  | write => exact absurd (Act.Writes.disabled_of_touch takes) calm
  | writeAt =>
      obtain ⟨offset, -, writes⟩ := takes
      exact absurd (Act.Writes.disabled_of_touch writes) calm
  | disableLines =>
      rcases raises with rfl | rfl
      · exact takes.2.elim
      · exact takes.2.elim
  | enableLines => exact takes.2.elim
  | _ => exact takes.elim

theorem Operation.setVisible_of_takes {d : Distributor} {operation : Operation} {ref : LineRef}
    (takes : operation.Takes d (.touch ref (.visible true))) :
    ∃ v line, operation = .setVisible v line true := by
  rcases reports_of_takes (.inl rfl) takes with ⟨v, line, same, -⟩ | ⟨v, line, -, other⟩
  · exact ⟨v, line, same⟩
  · cases other

namespace Machine

variable {σ : Type}

/-! ## Reports and completion -/

theorem updateStatus_cases (m : Machine σ) (report : Report) (v line : Nat) :
    (m.updateStatus report.apply v line).2 = m ∨
      ∃ ref, m.dist.resolve v line = .ok ref ∧
        Step m (.touch ref report) (m.updateStatus report.apply v line).2 := by
  unfold updateStatus
  split
  · exact .inl rfl
  · rename_i ref resolved
    obtain ⟨-, -, -, there⟩ := Distributor.found_of_resolve resolved
    exact .inr ⟨ref, resolved, steps_touch m there report⟩

theorem steps_updateStatus (m : Machine σ) (report : Report) (v line : Nat) :
    Steps (fun a => ∃ ref, m.dist.resolve v line = .ok ref ∧ a = .touch ref report) m
      (m.updateStatus report.apply v line).2 := by
  rcases updateStatus_cases m report v line with same | ⟨ref, resolved, step⟩
  · rw [same]
    exact .refl m
  · exact .single step ⟨ref, resolved, rfl⟩

theorem steps_routePhysical (m : Machine σ) (v line irq : Nat) :
    Steps ((Operation.routePhysical v line irq).Takes m.dist) m (m.routePhysical v line irq).2 := by
  unfold routePhysical
  split
  · exact .refl m
  · rename_i ref resolved
    obtain ⟨-, -, -, there⟩ := Distributor.found_of_resolve resolved
    exact (Steps.single (steps_touch m there (.routed irq)) (.inr ⟨ref, resolved, rfl⟩)).trans
      ((steps_note _ _ (by intros; simp)).mono fun a idle => .inl idle)

theorem steps_unroutePhysical (m : Machine σ) (v line : Nat) :
    Steps ((Operation.unroutePhysical v line).Takes m.dist) m (m.unroutePhysical v line).2 := by
  unfold unroutePhysical
  split
  · exact .refl m
  · rename_i ref resolved
    obtain ⟨-, -, -, there⟩ := Distributor.found_of_resolve resolved
    exact .single (steps_touch m there .unrouted) ⟨ref, resolved, rfl⟩

variable [Host σ]

/-- What `retire` reads after completing the line, it could have read before: completion
leaves owner, priority and the two flags it asks for. -/
theorem retire_of_resolve {m : Machine σ} {v line : Nat} {ref : LineRef}
    (resolved : m.dist.resolve v line = .ok ref) :
    m.retire v line =
      if (m.dist.descriptor ref).owner ≠ some v then
        (.ok false, m.modify (·.updateLine ref Descriptor.complete))
      else if (m.dist.descriptor ref).status.queued &&
          (m.dist.descriptor ref).status.enabled then
        (.ok true, (m.modify (·.updateLine ref Descriptor.complete)).call
          (.raise v line (m.dist.descriptor ref).priority))
      else
        (.ok false, (m.modify (·.updateLine ref Descriptor.complete)).modify fun d =>
          (d.updateLine ref (Descriptor.handBack v)).updateInflight v (·.erase line)) := by
  obtain ⟨-, -, -, there⟩ := Distributor.found_of_resolve resolved
  unfold retire
  rw [resolved]
  simp only [dist_modify, Distributor.descriptor_updateLine_self there]
  rfl

theorem steps_retire (m : Machine σ) (v line : Nat) :
    Steps ((Operation.retire v line).Takes m.dist) m (m.retire v line).2 := by
  cases resolved : m.dist.resolve v line with
  | error error =>
      unfold retire
      rw [resolved]
      exact .refl m
  | ok ref =>
      obtain ⟨-, rfl, -, there⟩ := Distributor.found_of_resolve resolved
      have touched := steps_touch m there .completed
      rw [retire_of_resolve resolved]
      by_cases owned : (m.dist.descriptor ref).owner = some v
      · rw [if_neg (fun other => other owned)]
        by_cases both : ((m.dist.descriptor ref).status.queued &&
            (m.dist.descriptor ref).status.enabled) = true
        · rw [if_pos both]
          obtain ⟨queued, enabled⟩ := Bool.and_eq_true_iff.1 both
          exact Steps.single (a := .keep v ref) ⟨⟨owned, queued, enabled⟩, rfl, rfl⟩
            ⟨ref, resolved, by rw [if_pos ⟨owned, both⟩]⟩
        · rw [if_neg both]
          have kind : ∀ a, (a = .touch ref .completed ∨ a = .unlink v ref) →
              (Operation.retire v ref.number).Takes m.dist a :=
            fun a one => ⟨ref, resolved, by rwa [if_neg (fun held => both held.2)]⟩
          have still : ((m.dist.updateLine ref Descriptor.complete).descriptor ref).owner =
              some v := by
            rw [Distributor.descriptor_updateLine_self there]
            exact owned
          exact (Steps.single touched (kind _ (.inl rfl))).trans
            (Steps.single (a := .unlink v ref) ⟨still, rfl, (List.append_nil _).symm⟩
              (kind _ (.inr rfl)))
      · rw [if_pos owned]
        exact .single touched
          ⟨ref, resolved, by rw [if_neg (fun held => owned held.1)]; exact .inl rfl⟩

theorem step_of_retire_kept {m : Machine σ} {v line : Nat}
    (kept : (m.retire v line).1 = .ok true) :
    ∃ ref, m.dist.resolve v line = .ok ref ∧ Step m (.keep v ref) (m.retire v line).2 := by
  cases resolved : m.dist.resolve v line with
  | error error =>
      unfold retire at kept
      rw [resolved] at kept
      cases kept
  | ok ref =>
      obtain ⟨-, rfl, -, -⟩ := Distributor.found_of_resolve resolved
      rw [retire_of_resolve resolved] at kept ⊢
      split at kept
      · cases kept
      · rename_i owned
        split at kept
        · rename_i both
          rw [if_neg owned, if_pos both]
          obtain ⟨queued, enabled⟩ := Bool.and_eq_true_iff.1 both
          exact ⟨ref, rfl, ⟨Decidable.not_not.1 owned, queued, enabled⟩, rfl, rfl⟩
        · cases kept

/-! ## Making and releasing VCPUs -/

theorem steps_clearPending (m : Machine σ) (v : Nat) :
    Steps ((Operation.clearPending v).Takes m.dist) m (m.clearPending v).2 := by
  unfold clearPending
  split
  · exact .refl m
  · have cleared : Step m (.clear v) (m.modify (·.dropInflight v)) :=
      ⟨trivial, rfl, (List.append_nil _).symm⟩
    exact (Steps.single cleared (.inr rfl)).trans
      (((steps_call _ (.clear v) rfl).trans
        (steps_note _ (.pendingCleared v) (by intros; simp))).mono fun a idle => .inl idle)

theorem entries_clearPending {m : Machine σ} {v : Nat} {list : Inflight}
    (found : (m.clearPending v).2.dist.inflight? v = some list) : list.entries = [] := by
  unfold clearPending Distributor.requireVcpu at found
  split at found
  · rename_i refused
    split at refused
    · rename_i absent
      simp [Distributor.inflight?, absent] at found
    · cases refused
  · simp only [dist_note, dist_call, dist_modify, Distributor.inflight?_dropInflight,
      if_true] at found
    obtain ⟨before, -, rfl⟩ := Option.map_eq_some_iff.1 found
    rfl

theorem steps_freeVcpu (m : Machine σ) (v : Nat) :
    Steps ((Operation.freeVcpu v).Takes m.dist) m (m.freeVcpu v).2 := by
  have cleared : Steps ((Operation.freeVcpu v).Takes m.dist) m (m.clearPending v).2 := by
    refine (steps_clearPending m v).mono ?_
    rintro a (idle | clear)
    · exact .inl idle
    · exact .inr (.inl clear)
  have empty : ∀ list, (m.clearPending v).2.dist.inflight? v = some list → list.entries = [] :=
    fun _ found => entries_clearPending found
  unfold freeVcpu
  cases done : m.clearPending v with
  | mk answer after =>
      rw [done] at cleared empty
      cases answer with
      | error failure => exact cleared
      | ok _ =>
          have released : Step after (.release v) (after.modify (·.setVcpu v none)) :=
            ⟨empty, rfl, (List.append_nil _).symm⟩
          exact cleared.trans ((Steps.single released (.inr (.inr rfl))).trans
            ((steps_note _ (.vcpuReleased v) (by intros; simp)).mono fun a idle => .inl idle))

omit [Host σ] in
theorem steps_initVcpu (m : Machine σ) (v : Nat) :
    Steps ((Operation.initVcpu v).Takes m.dist) m (m.initVcpu v).2 := by
  unfold initVcpu
  split
  · exact .refl m
  · rename_i lines counted
    split
    · exact .refl m
    · exact .refl m
    · rename_i slot
      split
      · exact .refl m
      · rename_i vcpu created
        have absent : m.dist.vcpu? v = none := by simp [Distributor.vcpu?, slot]
        have inside : v < m.dist.vcpus.size := (Array.getElem?_eq_some_iff.1 slot).1
        have allocated : Step m (.allocate v vcpu) (m.modify (·.setVcpu v (some vcpu))) :=
          ⟨⟨absent, inside, lines, counted, created⟩, rfl, (List.append_nil _).symm⟩
        exact (Steps.single allocated (.inr ⟨vcpu, rfl⟩)).trans
          ((steps_note _ (.vcpuAllocated v) (by intros; simp)).mono fun a idle => .inl idle)

/-! ## Reads and writes -/

theorem steps_decode (m : Machine σ) (v offset : Nat) (width : Width) :
    Steps Act.Idles m (m.decode v offset width).2 := by
  unfold decode
  split
  · exact steps_note m _ (by intros; simp)
  · split
    · exact .refl m
    · exact (steps_note m _ (by intros; simp)).trans (steps_call _ .crash rfl)

theorem accepts_of_decode {m m' : Machine σ} {v offset : Nat} {width : Width} {group : Group}
    (decoded : m.decode v offset width = (.ok group, m')) :
    group.Accepts offset width ∧ m' = m := by
  unfold decode at decoded
  split at decoded
  · cases decoded
  · rename_i found lookup
    split at decoded
    · rename_i allowed
      cases decoded
      exact ⟨⟨lookup, allowed⟩, rfl⟩
    · cases decoded

theorem steps_read (m : Machine σ) (v offset : Nat) (width : Width) (signed : Bool) :
    Steps Act.Idles m (m.read v offset width signed).2 := by
  unfold read
  split
  · exact .refl m
  · have idles := steps_decode m v offset width
    cases decoded : m.decode v offset width with
    | mk answer after =>
        rw [decoded] at idles
        cases answer with
        | error error => exact idles
        | ok group =>
            simp only
            split
            · exact idles.trans (steps_note after _ (by intros; simp))
            · exact idles
            · exact idles.trans (steps_note after _ (by intros; simp))

omit [Host σ] in
theorem steps_writeControl (m : Machine σ) (v : Nat) (value : Word) :
    Steps (fun a => a.Idles ∨ ∃ enabled, a = .control enabled) m (m.writeControl v value).2 := by
  have switched : Step m (.control (Control.enableGroup.isSet value))
      (m.modify ({ · with enabled := Control.enableGroup.isSet value })) :=
    ⟨trivial, rfl, (List.append_nil _).symm⟩
  have stored : Steps (fun a => a.Idles ∨ ∃ enabled, a = .control enabled) m _ :=
    .single switched (.inr ⟨_, rfl⟩)
  unfold writeControl
  simp only
  split
  · exact stored
  · exact stored.trans ((steps_note _ _ (by intros; simp)).mono fun a idle => .inl idle)

theorem enable_setWord {bank : Bank} (other : bank ≠ .enable) (index : Nat) (value : Word)
    (rank : Rank) : (rank.setWord bank index value).enable = rank.enable := by
  cases bank with
  | enable => exact absurd rfl other
  | pending | active =>
      simp only [Rank.setWord]
      split <;> rfl
  | priority | targets | trigger | senders => rfl

omit [Host σ] in
theorem steps_writeBank (m : Machine σ) (v : Nat) (access : Access) {bank : Bank}
    (other : bank ≠ .enable) (f : Word → Word) :
    Steps (fun a => a.Idles ∨ ∃ index f, a = .store v index f ∧
      ∀ rank, (f rank).enable = rank.enable) m (m.writeBank v access bank f).2 := by
  unfold writeBank
  simp only
  split
  · exact (steps_note m _ (by intros; simp)).mono fun a idle => .inl idle
  · split
    · exact .refl m
    · exact .single (a := .store v _ _) ⟨trivial, rfl, (List.append_nil _).symm⟩
        (.inr ⟨_, _, rfl, enable_setWord other _ _⟩)

theorem steps_writeSetEnable (m : Machine σ) {v : Nat} (access : Access) (value : Word)
    (present : (m.dist.vcpu? v).isSome = true) :
    Steps (Register.setEnable.Takes m.dist v access.position value) m
      (m.writeSetEnable v access value).2 := by
  unfold writeSetEnable
  simp only
  split
  · exact (steps_note m _ (by intros; simp)).mono fun a idle => .inr (idle.enables _)
  · rename_i rank found
    have stored : Steps (Register.setEnable.Takes m.dist v access.position value) m
        (m.modify (·.updateRank v (rankIndex Bank.enable.words access.position)
          fun rank => { rank with enable := rank.enable ||| value })) :=
      .single (a := .store v _ _) ⟨trivial, rfl, (List.append_nil _).symm⟩ (.inl ⟨_, rfl⟩)
    split
    · exact stored
    · refine stored.trans ((steps_enableMask _ ?_).mono fun a enables => .inr
        (enables.mono fun ref masked => ⟨rank, found, masked⟩))
      rw [← Distributor.inflight?_isSome] at present ⊢
      rwa [dist_modify, Distributor.inflight?_updateRank]

theorem steps_writeClearEnable (m : Machine σ) {v : Nat} (access : Access) (value : Word) :
    Steps (Register.clearEnable.Takes m.dist v access.position value) m
      (m.writeClearEnable v access value).2 := by
  unfold writeClearEnable
  simp only
  split
  · exact (steps_note m _ (by intros; simp)).mono fun a idle => .inr (idle.disables _)
  · rename_i rank found
    have stored : Steps (Register.clearEnable.Takes m.dist v access.position value) m
        (m.modify (·.updateRank v (rankIndex Bank.enable.words access.position)
          fun rank => { rank with enable := rank.enable &&& ~~~value })) :=
      .single (a := .store v _ _) ⟨trivial, rfl, (List.append_nil _).symm⟩ (.inl ⟨_, rfl⟩)
    split
    · exact stored
    · exact stored.trans ((steps_disableMask _).mono fun a disables => .inr
        (disables.mono fun ref masked => ⟨rank, found, masked⟩))

theorem steps_writeRegister (m : Machine σ) {v : Nat} (access : Access) (value : Word)
    (register : Register) (present : (m.dist.vcpu? v).isSome = true) :
    Steps (register.Takes m.dist v access.position value) m
      (m.writeRegister v access value register).2 := by
  have ignored : Steps Act.Idles m (m.ignoreWrite access value).2 :=
    steps_note m _ (by intros; simp)
  cases register with
  | control => exact steps_writeControl m v value
  | setEnable => exact steps_writeSetEnable m access value present
  | clearEnable => exact steps_writeClearEnable m access value
  | typeRegister | implementer | zero | setActive | peripheralId => exact ignored
  | setPending | clearPending | clearSoftwarePending | setSoftwarePending =>
      exact steps_note m _ (by intros; simp)
  | clearActive => exact steps_writeBank m v access (by decide) _
  | priority => exact steps_writeBank m v access (by decide) _
  | targets | trigger =>
      unfold writeRegister
      simp only
      split
      · exact ignored.mono fun a idle => .inl idle
      · exact steps_writeBank m v access (by decide) _
  | softwareInterrupt => exact steps_sendSoftware v value m

theorem steps_write (m : Machine σ) (v offset : Nat) (width : Width) (value : Word) :
    Steps (Act.Writes m.dist v offset width value) m (m.write v offset width value).2 := by
  unfold write
  split
  · exact .refl m
  · rename_i vcpu required
    have present := Distributor.present_of_requireVcpu required
    cases decoded : m.decode v offset width with
    | mk answer after =>
        cases answer with
        | error error =>
            have idles := steps_decode m v offset width
            rw [decoded] at idles
            exact idles.mono fun a idle => .inl idle
        | ok group =>
            obtain ⟨accepts, rfl⟩ := accepts_of_decode decoded
            have noted := steps_note after (.registerWritten v group.name
              (offset - group.first) value) (by intros; simp)
            exact (noted.mono fun a idle => .inl idle).trans
              ((steps_writeRegister (after.note (.registerWritten v group.name
                (offset - group.first) value)) ⟨offset, offset - group.first, width, false⟩ value
                  group.register present).mono fun a takes => .inr ⟨present, group, accepts, takes⟩)

/-! ## Whole operations -/

/-- An operation is some of the acts it may take, one after the other. -/
theorem perform_steps (m : Machine σ) (operation : Operation) :
    Steps (operation.Takes m.dist) m (m.perform operation).2 := by
  cases operation with
  | initVcpu v => exact steps_initVcpu m v
  | freeVcpu v => exact steps_freeVcpu m v
  | read v offset width signed => exact steps_read m v offset width signed
  | write v offset width value => exact steps_write m v offset width value
  | readAt v address width signed =>
      show Steps Act.Idles m (m.readAt v address width signed).2
      unfold readAt
      split
      · exact .refl m
      · exact steps_read m v _ width signed
  | writeAt v address width value =>
      show Steps _ m (m.writeAt v address width value).2
      unfold writeAt
      split
      · exact .refl m
      · rename_i offset inside
        exact (steps_write m v offset width value).mono fun a writes => ⟨offset, inside, writes⟩
  | inject v line => exact steps_inject m v line
  | injectSpi line => exact steps_injectSpi m line
  | dispatchSoftware v value =>
      show Steps _ m (m.dispatchSoftware v value).2
      unfold dispatchSoftware
      split
      · exact .refl m
      · exact steps_sendSoftware v value m
  | enableLines v mask rank =>
      show Steps _ m (m.enableLines v mask rank).2
      unfold enableLines
      split
      · exact .refl m
      · rename_i vcpu required
        have present := Distributor.present_of_requireVcpu required
        exact (steps_enableMask m present).mono fun a enables => ⟨present, enables⟩
  | disableLines v mask rank =>
      show Steps _ m (m.disableLines v mask rank).2
      unfold disableLines disableLinesAmid
      split
      · exact .refl m
      · rename_i vcpu required
        have present := Distributor.present_of_requireVcpu required
        exact (steps_disableMask m).mono fun a disables => ⟨present, disables⟩
  | clearPending v => exact steps_clearPending m v
  | setVisible v line visible => exact steps_updateStatus m (.visible visible) v line
  | setActive v line active => exact steps_updateStatus m (.active active) v line
  | retire v line => exact steps_retire m v line
  | routePhysical v line irq => exact steps_routePhysical m v line irq
  | unroutePhysical v line => exact steps_unroutePhysical m v line
  | inflightLines v => exact .refl m
  | pendingStatus v line => exact .refl m

end Machine

end VirtualGic
