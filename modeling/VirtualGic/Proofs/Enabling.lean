/-
# Proofs.Enabling — what is left of the lines that are enabled

A line that is enabled stays where it is. If it is inflight and in no list register, its owner
is shown it, and its physical interrupt is unmasked. One line does more: when the event-channel
line is enabled while its upcall is latched, it is queued in the middle of whatever else is
enabled.

On a host that does not change its mind, that is known beforehand. An `Upcall` has what it takes
to tell what becomes of a line from the line alone, and `Enabled` says so for a stretch of
lines. It holds of one line (`enabled_enableLine`), and stretches of different lines compose
(`Enabled.append`), so it holds of a whole mask.
-/
import VirtualGic.Proofs.Dequeuing
import VirtualGic.Proofs.Firm

namespace VirtualGic

set_option autoImplicit false

/-! ## The event-channel line of a VCPU -/

/-- The event-channel line, as it would be queued on a VCPU. -/
structure Upcall where
  vcpu : Nat
  line : Nat
  priority : Byte
  /-- The upcall is latched and the VCPU is up. -/
  due : Bool

/-- The raise that shows the line to its owner, if it is in no list register. -/
def Descriptor.unseen (p : Descriptor) : List Call :=
  match p.owner with
  | none => []
  | some owner => if p.status.visible then [] else [.raise owner p.line p.priority]

namespace Upcall

/-- Whether the line is queued when it is enabled. -/
def claims (u : Upcall) (p : Descriptor) : Bool :=
  u.due && p.line == u.line && !p.isInflight

/-- The line enabled. -/
def enable (u : Upcall) (p : Descriptor) : Descriptor :=
  if u.claims p then (p.setEnabled true).claim u.vcpu u.priority else p.setEnabled true

/-- The list of the VCPU after the line was enabled. -/
def queue (u : Upcall) (list : Inflight) (p : Descriptor) : Inflight :=
  if u.claims p then list.insert u.line u.priority else list

/-- What the physical controller is told when the line is enabled. -/
def tells (u : Upcall) (p : Descriptor) : List Call :=
  (if u.claims p then [.raise u.vcpu u.line u.priority] else p.unseen) ++
    p.phys.toList.map .enablePhysical

/-- A line that is enabled has nothing to wait for. -/
theorem claims_enable (u : Upcall) (p : Descriptor) : u.claims (u.enable p) = false := by
  unfold enable
  split
  · simp [claims, Descriptor.claim, Descriptor.isInflight]
  · rename_i unclaimed
    have same : u.claims (p.setEnabled true) = u.claims p := rfl
    rw [same, Bool.eq_false_iff]
    exact unclaimed

theorem enable_enable (u : Upcall) (p : Descriptor) : u.enable (u.enable p) = u.enable p := by
  rw [enable, claims_enable, if_neg Bool.false_ne_true]
  unfold enable
  split <;> rfl

/-- It does not matter in which order lines are queued, as only one of them is. -/
theorem queue_right_comm (u : Upcall) (list : Inflight) (p q : Descriptor) :
    u.queue (u.queue list p) q = u.queue (u.queue list q) p := by
  unfold queue
  cases u.claims p <;> cases u.claims q <;> rfl

end Upcall

namespace Distributor

/-- The event-channel line as it would be queued on VCPU `v` now. -/
def upcall (d : Distributor) (v : Nat) (due : Bool) : Upcall where
  vcpu := v
  line := d.config.upcallLine
  priority := d.priorityOf v d.config.upcallLine
  due

theorem upcall_of_registers {d d' : Distributor} (same : d'.registers = d.registers) (v : Nat)
    (due : Bool) : d'.upcall v due = d.upcall v due := by
  simp only [registers, shape, Prod.mk.injEq] at same
  obtain ⟨⟨config, -⟩, -, ranks⟩ := same
  have priorities : d'.priorityOf v d'.config.upcallLine = d.priorityOf v d'.config.upcallLine :=
    priorityOf_of_rank (fun index => by rw [ranks]) _
  rw [upcall, priorities, config, upcall]

end Distributor

theorem LineRef.named_singleton {v : Nat} {ref other : LineRef} (seen : ref.SeenBy v) :
    other.Named v [ref.number] ↔ ref = other := by
  constructor
  · rintro ⟨seen', number⟩
    exact LineRef.eq_of_seenBy seen seen' (List.mem_singleton.1 number).symm
  · rintro rfl
    exact ⟨seen, List.mem_singleton_self _⟩

namespace Machine

variable {σ : Type}

/-! ## Stretches of lines -/

/-- VCPU `v` enables `lines` between `m` and `m'`, while its upcall is `due` or not. -/
structure Enabled (due : Bool) (v : Nat) (lines : List Nat) (m m' : Machine σ) : Prop where
  registers : m'.dist.registers = m.dist.registers
  descriptors : ∀ ref : LineRef, m'.dist.descriptor? ref =
    if ref.Named v lines then (m.dist.descriptor? ref).map (m.dist.upcall v due).enable
    else m.dist.descriptor? ref
  lists : ∀ w, m'.dist.inflight? w =
    if v = w then
      (m.dist.inflight? w).map
        ((lines.filterMap (m.dist.line? v)).foldl (m.dist.upcall v due).queue ·)
    else m.dist.inflight? w
  physical : m'.physical =
    m.physical ++ (lines.filterMap (m.dist.line? v)).flatMap (m.dist.upcall v due).tells

namespace Enabled

variable {due : Bool} {v : Nat} {first second : List Nat} {m m' m'' : Machine σ}

/-- A stretch of lines without descriptors. -/
theorem of_absent {lines : List Nat} (absent : ∀ line ∈ lines, m.dist.lineRef? v line = none) :
    Enabled due v lines m m := by
  have nothing : lines.filterMap (m.dist.line? v) = [] :=
    List.filterMap_eq_nil_iff.2 fun line member => by
      rw [Distributor.line?, absent line member, Option.bind_none]
  refine ⟨rfl, fun ref => ?_, fun w => ?_, by rw [nothing]; simp⟩
  · split
    · rename_i named
      cases found : m.dist.descriptor? ref with
      | none => rfl
      | some p =>
          have looked : m.dist.lineRef? v ref.number = some ref :=
            Distributor.lineRef?_eq_some_iff.2 ⟨rfl, named.1, by simp [found]⟩
          rw [absent _ named.2] at looked
          cases looked
    · rfl
  · rw [nothing]
    simp only [List.foldl_nil, Option.map_id', ite_self]

/-- A stretch of one line that has a descriptor. -/
theorem of_ref {ref : LineRef} {p : Descriptor} (seen : ref.SeenBy v)
    (found : m.dist.descriptor? ref = some p)
    (registers : m'.dist.registers = m.dist.registers)
    (descriptors : ∀ other, m'.dist.descriptor? other =
      if ref = other then (m.dist.descriptor? other).map (m.dist.upcall v due).enable
      else m.dist.descriptor? other)
    (lists : ∀ w, m'.dist.inflight? w =
      if v = w then (m.dist.inflight? w).map ((m.dist.upcall v due).queue · p)
      else m.dist.inflight? w)
    (physical : m'.physical = m.physical ++ (m.dist.upcall v due).tells p) :
    Enabled due v [ref.number] m m' := by
  have single : [ref.number].filterMap (m.dist.line? v) = [p] := by
    rw [List.filterMap_cons, Distributor.line?_eq_some_iff.2 ⟨ref, rfl, seen, found⟩]
    rfl
  refine ⟨registers, fun other => ?_, fun w => ?_, ?_⟩
  · rw [descriptors]
    simp only [LineRef.named_singleton seen]
  · rw [lists, single]
    rfl
  · rw [physical, single, List.flatMap_cons, List.flatMap_nil, List.append_nil]

/-- A line that is not in the stretch has the descriptor it had. -/
theorem line?_of_not_mem (stretch : Enabled due v first m m') {line : Nat}
    (outside : line ∉ first) : m'.dist.line? v line = m.dist.line? v line := by
  refine Option.ext fun p => ?_
  rw [Distributor.line?_eq_some_iff, Distributor.line?_eq_some_iff]
  refine exists_congr fun ref => and_congr_right fun number => and_congr_right fun _ => ?_
  rw [stretch.descriptors, if_neg fun named => outside (number ▸ named.2)]

theorem append (one : Enabled due v first m m') (two : Enabled due v second m' m'')
    (apart : List.Disjoint first second) : Enabled due v (first ++ second) m m'' := by
  have upcall := Distributor.upcall_of_registers one.registers v due
  have same : second.filterMap (m'.dist.line? v) = second.filterMap (m.dist.line? v) :=
    List.filterMap_congr fun line member => one.line?_of_not_mem fun before => apart before member
  refine ⟨two.registers.trans one.registers, fun ref => ?_, fun w => ?_, ?_⟩
  · rw [two.descriptors, one.descriptors, upcall]
    by_cases here : ref.Named v first
    · have later : ¬ ref.Named v second := fun named => apart here.2 named.2
      rw [if_neg later, if_pos here, if_pos (LineRef.named_append.2 (.inl here))]
    · simp only [LineRef.named_append, here, false_or, if_false]
  · rw [two.lists, one.lists, upcall, same, List.filterMap_append]
    split
    · rw [Option.map_map]
      simp only [List.foldl_append]
      rfl
    · rfl
  · rw [two.physical, one.physical, upcall, same, List.filterMap_append, List.flatMap_append,
      List.append_assoc]

end Enabled

variable [Host σ]

/-! ## One line -/

theorem physical_kick (m : Machine σ) (v : Nat) : (m.kick v).physical = m.physical := by
  rw [physical, (meets_kick m v).calls, wake_calls, List.filter_append]
  cases m.elsewhere v <;> simp [physical, Call.isPhysical]

theorem physical_notify (m : Machine σ) (line holder : Nat) :
    (m.notify line holder).physical = m.physical :=
  (physical_kick _ holder).trans (physical_note m _)

theorem physical_enablePhysical (m : Machine σ) (ref : LineRef) :
    (m.enablePhysical ref).physical =
      m.physical ++ (m.dist.descriptor ref).phys.toList.map .enablePhysical := by
  unfold enablePhysical
  cases (m.dist.descriptor ref).phys with
  | none => simp
  | some irq => rw [physical_call]; rfl

theorem physical_raiseHidden {m : Machine σ} (consistent : Consistent m.dist) {ref : LineRef}
    {p : Descriptor} (found : m.dist.descriptor? ref = some p) :
    (m.raiseHidden ref).physical = m.physical ++ p.unseen := by
  have known := Distributor.descriptor_of_eq_some found
  unfold raiseHidden Descriptor.unseen
  simp only [known]
  cases owner : p.owner with
  | none => simp
  | some holder =>
      have alive := (consistent.owned found owner).2.present
      simp only [alive, Bool.true_and]
      cases p.status.visible with
      | true => simp
      | false =>
          rw [Bool.not_false, if_pos rfl, physical_call]
          rfl

/-- A free line is passed on when it is queued, if the guest has enabled it. -/
theorem physical_deliver_of_free {m : Machine σ} {v : Nat} {ref : LineRef} {p : Descriptor}
    (found : m.dist.descriptor? ref = some p) (free : p.owner = none)
    (up : (m.online v).1 = true) :
    (m.deliver [] v ref).physical = m.physical ++
      if p.status.enabled then [.raise v p.line (m.dist.priorityOf v p.line)] else [] := by
  obtain rfl := Distributor.descriptor_of_eq_some found
  have there : (m.dist.descriptor? ref).isSome = true := by rw [found]; rfl
  have linked := link_eq (m := (m.online v).2) v there
    (m.dist.priorityOf v (m.dist.descriptor ref).line)
  rw [dist_online] at linked
  rw [deliver_of_free free, if_pos up, physical_notify, linked]
  split
  · exact physical_call (m.online v).2 _
  · exact (List.append_nil _).symm

/-- The machine in which the guest has enabled the line, and nothing else is done yet. -/
def enabled (m : Machine σ) (ref : LineRef) : Machine σ :=
  m.modify (·.updateLine ref (Descriptor.setEnabled true))

omit [Host σ] in
theorem dist_enabled (m : Machine σ) (ref : LineRef) :
    (m.enabled ref).dist = m.dist.updateLine ref (Descriptor.setEnabled true) := rfl

omit [Host σ] in
theorem consistent_enabled {m : Machine σ} (consistent : Consistent m.dist) (ref : LineRef) :
    Consistent (m.enabled ref).dist :=
  consistent.updateLine ref fun _ => rfl

theorem enableLine_of_some {m : Machine σ} {v line : Nat} {ref : LineRef}
    (looked : m.dist.lineRef? v line = some ref) :
    enableLine v m line = ((m.enabled ref).showEnabled v line ref).enablePhysical ref := by
  unfold enableLine
  rw [looked]
  rfl

theorem enableLine_of_none {m : Machine σ} {v line : Nat}
    (absent : m.dist.lineRef? v line = none) : enableLine v m line = m := by
  unfold enableLine
  rw [absent]

section OneLine

variable {up latched : Nat → Bool} {S : σ → Prop} {m : Machine σ} {v : Nat} {ref : LineRef}
  {p : Descriptor}

omit [Host σ] in
theorem descriptor?_enabled (found : m.dist.descriptor? ref = some p) :
    (m.enabled ref).dist.descriptor? ref = some (p.setEnabled true) := by
  rw [dist_enabled, Distributor.descriptor?_updateLine_self, found, Option.map_some]

omit [Host σ] in
theorem upcallLine_enabled :
    (m.enabled ref).dist.config.upcallLine = m.dist.config.upcallLine :=
  congrArg (·.1.upcallLine) (m.dist.shape_updateLine ref _)

omit [Host σ] in
theorem priorityOf_enabled (line : Nat) :
    (m.enabled ref).dist.priorityOf v line = m.dist.priorityOf v line :=
  Distributor.priorityOf_of_rank
    (fun index => by rw [dist_enabled, Distributor.rank?_updateLine]) line

omit [Host σ] in
theorem claims_upcall_iff {due : Bool} :
    (m.dist.upcall v due).claims p = true ↔
      due = true ∧ p.line = m.dist.config.upcallLine ∧ p.owner = none := by
  simp only [Upcall.claims, Distributor.upcall, Descriptor.isInflight, Bool.and_eq_true, beq_iff_eq,
    Bool.not_eq_true', Option.isSome_eq_false_iff, Option.isNone_iff_eq_none, and_assoc]

theorem showEnabled_of_latched (found : m.dist.descriptor? ref = some p)
    (line : ref.number = m.dist.config.upcallLine) (free : p.owner = none)
    (latching : ((m.enabled ref).upcallPending v).1 = true) :
    (m.enabled ref).showEnabled v ref.number ref =
      ((m.enabled ref).upcallPending v).2.deliver [] v ref := by
  have known := Distributor.descriptor_of_eq_some (descriptor?_enabled found)
  unfold showEnabled
  simp only [upcallLine_enabled, ← line, if_true, latching, dist_upcallPending, known,
    Descriptor.isInflight, Descriptor.setEnabled, free, Option.isSome_none, Bool.not_false,
    Bool.and_self]

/-- The event-channel line is queued. -/
theorem showEnabled_of_claims (constant : Host.Constant up latched S) (inside : S m.host)
    (consistent : Consistent m.dist) (seen : ref.SeenBy v)
    (present : (m.dist.vcpu? v).isSome = true) (found : m.dist.descriptor? ref = some p)
    (claims : (m.dist.upcall v (latched v && up v)).claims p = true) :
    ((m.enabled ref).showEnabled v ref.number ref).dist =
        (Act.link v ref (m.dist.priorityOf v p.line)).apply (m.enabled ref).dist ∧
      ((m.enabled ref).showEnabled v ref.number ref).physical =
        m.physical ++ [.raise v p.line (m.dist.priorityOf v p.line)] := by
  obtain ⟨due, line, free⟩ := claims_upcall_iff.1 claims
  obtain ⟨pending, running⟩ := Bool.and_eq_true_iff.1 due
  obtain ⟨answer, asked⟩ := constant.upcallPending v inside
  -- What the machine that has asked about the upcall knows of the line.
  have changed : ((m.enabled ref).upcallPending v).2.dist.descriptor? ref =
      some (p.setEnabled true) := descriptor?_enabled found
  have known := Distributor.descriptor_of_eq_some changed
  have there : (((m.enabled ref).upcallPending v).2.dist.descriptor? ref).isSome = true := by
    rw [changed]
    rfl
  have alive : (((m.enabled ref).upcallPending v).2.dist.vcpu? v).isSome = true :=
    (vcpu?_isSome_updateLine ..).trans present
  have online : (((m.enabled ref).upcallPending v).2.online v).1 = true :=
    (constant.online v asked).1.trans running
  have priorities : ((m.enabled ref).upcallPending v).2.dist.priorityOf v p.line =
      m.dist.priorityOf v p.line := priorityOf_enabled p.line
  rw [showEnabled_of_latched found ((consistent.numbered found).symm.trans line) free
    (answer.trans pending)]
  constructor
  · rw [dist_deliver_of_free seen there alive (known ▸ free) online, known]
    exact congrArg (fun q => (Act.link v ref q).apply (m.enabled ref).dist) priorities
  · rw [physical_deliver_of_free changed free online]
    exact congrArg (fun q => m.physical ++ [Call.raise v p.line q]) priorities

/-- Any other line is shown to its owner. -/
theorem showEnabled_of_not_claims (constant : Host.Constant up latched S) (inside : S m.host)
    (consistent : Consistent m.dist) (found : m.dist.descriptor? ref = some p)
    (unclaimed : (m.dist.upcall v (latched v && up v)).claims p = false) :
    ((m.enabled ref).showEnabled v ref.number ref).dist = (m.enabled ref).dist ∧
      ((m.enabled ref).showEnabled v ref.number ref).physical = m.physical ++ p.unseen := by
  have number := consistent.numbered found
  have changed := descriptor?_enabled found
  have known := Distributor.descriptor_of_eq_some changed
  have still := consistent_enabled consistent ref
  obtain ⟨answer, asked⟩ := constant.upcallPending v inside
  have latching : ((m.enabled ref).upcallPending v).1 = latched v := answer
  unfold showEnabled
  split
  · rename_i upcall
    simp only [latching, dist_upcallPending, known]
    split
    · rename_i free
      obtain ⟨pending, free⟩ := Bool.and_eq_true_iff.1 free
      have free : p.owner = none := by
        simpa [Descriptor.isInflight, Descriptor.setEnabled] using free
      have down : up v = false := by
        rw [Bool.eq_false_iff] at unclaimed ⊢
        intro running
        refine unclaimed (claims_upcall_iff.2 ⟨by rw [pending, running]; rfl, ?_, free⟩)
        rw [number, upcall, upcallLine_enabled]
      have offline : (((m.enabled ref).upcallPending v).2.online v).1 = false :=
        (constant.online v asked).1.trans down
      have free' : (((m.enabled ref).upcallPending v).2.dist.descriptor ref).owner = none := by
        rw [dist_upcallPending, known]
        exact free
      obtain ⟨dist, calls⟩ := deliver_of_offline free' offline
      refine ⟨dist, ?_⟩
      rw [physical, calls, Descriptor.unseen, free, List.append_nil]
      rfl
    · have shown := physical_raiseHidden (m := ((m.enabled ref).upcallPending v).2) still changed
      exact ⟨dist_raiseHidden _ ref, shown⟩
  · have shown := physical_raiseHidden still changed
    exact ⟨dist_raiseHidden _ ref, shown⟩

theorem dist_enablePhysical (m : Machine σ) (ref : LineRef) :
    (m.enablePhysical ref).dist = m.dist :=
  (steps_enablePhysical m ref).dist_of_idles

/-- The stretch of the event-channel line, where that is queued. -/
theorem enabled_of_claims (constant : Host.Constant up latched S) (inside : S m.host)
    (consistent : Consistent m.dist) (seen : ref.SeenBy v)
    (present : (m.dist.vcpu? v).isSome = true) (found : m.dist.descriptor? ref = some p)
    (claims : (m.dist.upcall v (latched v && up v)).claims p = true) :
    Enabled (latched v && up v) v [ref.number] m
      (((m.enabled ref).showEnabled v ref.number ref).enablePhysical ref) := by
  obtain ⟨-, line, -⟩ := claims_upcall_iff.1 claims
  have changed := descriptor?_enabled found
  obtain ⟨dist, told⟩ := showEnabled_of_claims constant inside consistent seen present found claims
  have descriptors : ∀ other, ((m.enabled ref).showEnabled v ref.number ref).dist.descriptor?
      other = if ref = other then
        (m.dist.descriptor? other).map (m.dist.upcall v (latched v && up v)).enable
      else m.dist.descriptor? other := by
    intro other
    rw [dist, Act.descriptor?_apply_of_change? rfl, dist_enabled, Distributor.descriptor?_updateLine]
    split
    · rename_i same
      rw [← same, found, Option.map_some, Option.map_some, Option.map_some, Upcall.enable,
        if_pos claims, line]
      rfl
    · rfl
  have queued : (m.dist.upcall v (latched v && up v)).queue = fun list q =>
      if (m.dist.upcall v (latched v && up v)).claims q then
        list.insert p.line (m.dist.priorityOf v p.line) else list := by
    rw [line]
    rfl
  have last : ((m.enabled ref).showEnabled v ref.number ref).dist.descriptor ref =
      (m.dist.upcall v (latched v && up v)).enable p := by
    refine Distributor.descriptor_of_eq_some ?_
    rw [descriptors, if_pos rfl, found, Option.map_some]
  refine .of_ref seen found ?_ (fun other => ?_) (fun w => ?_) ?_
  · rw [dist_enablePhysical, dist, Act.apply, dist_enabled, Distributor.registers_updateInflight,
      Distributor.registers_updateLine, Distributor.registers_updateLine]
  · rw [dist_enablePhysical, descriptors]
  · rw [dist_enablePhysical, dist, Act.apply, Distributor.inflight?_updateLine_updateInflight,
      Distributor.descriptor_of_eq_some changed, dist_enabled, Distributor.inflight?_updateLine,
      queued]
    simp only [if_pos claims]
    rfl
  · rw [physical_enablePhysical, told, last, Upcall.tells, if_pos claims, Upcall.enable,
      if_pos claims, line, List.append_assoc]
    rfl

/-- The stretch of any other line. -/
theorem enabled_of_not_claims (constant : Host.Constant up latched S) (inside : S m.host)
    (consistent : Consistent m.dist) (seen : ref.SeenBy v)
    (found : m.dist.descriptor? ref = some p)
    (unclaimed : (m.dist.upcall v (latched v && up v)).claims p = false) :
    Enabled (latched v && up v) v [ref.number] m
      (((m.enabled ref).showEnabled v ref.number ref).enablePhysical ref) := by
  obtain ⟨dist, told⟩ := showEnabled_of_not_claims constant inside consistent found unclaimed
  refine .of_ref seen found ?_ (fun other => ?_) (fun w => ?_) ?_
  · rw [dist_enablePhysical, dist, dist_enabled, Distributor.registers_updateLine]
  · rw [dist_enablePhysical, dist, dist_enabled, Distributor.descriptor?_updateLine]
    split
    · rename_i same
      rw [← same, found, Option.map_some, Option.map_some, Upcall.enable, unclaimed,
        if_neg Bool.false_ne_true]
    · rfl
  · rw [dist_enablePhysical, dist, dist_enabled, Distributor.inflight?_updateLine]
    simp only [Upcall.queue, unclaimed, Bool.false_eq_true, if_false, Option.map_id', ite_self]
  · rw [physical_enablePhysical, told, dist,
      Distributor.descriptor_of_eq_some (descriptor?_enabled found), Upcall.tells, unclaimed,
      if_neg Bool.false_ne_true, List.append_assoc]
    rfl

end OneLine

section Stretch

variable {up latched : Nat → Bool} {S : σ → Prop} {m : Machine σ} {v : Nat}

theorem enabled_enableLine (constant : Host.Constant up latched S) (inside : S m.host)
    (consistent : Consistent m.dist) (present : (m.dist.vcpu? v).isSome = true) (line : Nat) :
    Enabled (latched v && up v) v [line] m (enableLine v m line) := by
  cases looked : m.dist.lineRef? v line with
  | none =>
      rw [enableLine_of_none looked]
      exact .of_absent fun other member => by rwa [List.mem_singleton.1 member]
  | some ref =>
      obtain ⟨rfl, seen, there⟩ := Distributor.lineRef?_eq_some_iff.1 looked
      obtain ⟨p, found⟩ := Option.isSome_iff_exists.1 there
      rw [enableLine_of_some looked]
      cases claims : (m.dist.upcall v (latched v && up v)).claims p with
      | true => exact enabled_of_claims constant inside consistent seen present found claims
      | false => exact enabled_of_not_claims constant inside consistent seen found claims

theorem constant_raiseHidden (constant : Host.Constant up latched S) (inside : S m.host)
    (ref : LineRef) : S (m.raiseHidden ref).host := by
  unfold raiseHidden
  simp only
  split
  · exact inside
  · split
    · exact constant.react nofun inside
    · exact inside

theorem constant_showEnabled (constant : Host.Constant up latched S) (inside : S m.host)
    (v line : Nat) (ref : LineRef) : S (m.showEnabled v line ref).host := by
  have asked : S (m.upcallPending v).2.host := (constant.upcallPending v inside).2
  unfold showEnabled
  split
  · simp only
    split
    · exact firm_deliver constant.toFirm asked v ref
    · exact constant_raiseHidden constant asked ref
  · exact constant_raiseHidden constant inside ref

theorem constant_enablePhysical (constant : Host.Constant up latched S) (inside : S m.host)
    (ref : LineRef) : S (m.enablePhysical ref).host := by
  unfold enablePhysical
  split
  · exact inside
  · exact constant.react nofun inside

theorem constant_enableLine (constant : Host.Constant up latched S) (inside : S m.host)
    (v line : Nat) : S (enableLine v m line).host := by
  unfold enableLine
  split
  · exact inside
  · rename_i ref _
    have shown := constant_showEnabled (m := m.enabled ref) constant inside v line ref
    exact constant_enablePhysical constant shown ref

/-- A mask keeps what each of its lines keeps. -/
theorem enabled_enableAll (constant : Host.Constant up latched S) (inside : S m.host)
    (consistent : Consistent m.dist) (present : (m.dist.vcpu? v).isSome = true)
    {lines : List Nat} (distinct : lines.Nodup) :
    Enabled (latched v && up v) v lines m (lines.foldl (enableLine v) m) ∧
      S (lines.foldl (enableLine v) m).host := by
  induction lines generalizing m with
  | nil => exact ⟨.of_absent fun _ member => absurd member List.not_mem_nil, inside⟩
  | cons line rest ih =>
      obtain ⟨single, distinct⟩ := List.nodup_cons.1 distinct
      have steps := steps_enableLine m line present
      have alive : ((enableLine v m line).dist.vcpu? v).isSome = true :=
        present_of_steps (fun a kind => by cases a <;> trivial) steps present
      obtain ⟨others, still⟩ := ih (constant_enableLine constant inside v line)
        (steps.consistent consistent) alive distinct
      exact ⟨(enabled_enableLine constant inside consistent present line).append others
        (List.singleton_disjoint.2 single), still⟩

end Stretch

end Machine

end VirtualGic
