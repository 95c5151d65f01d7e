/-
# Proofs.Dispatch — software interrupts are injections

A value written to the software-interrupt register names a line and chooses its targets in
one of three ways: by a mask, by leaving out the sender, or by naming the sender alone.
VCPUs without state and offline ones are passed over on each way, on one of them twice.
What is left is a list of VCPUs in ascending order, the `addressees`, that can be read off
the bits of the value. Raising the line on each of them in turn does what the value does
(`dispatches_run`), when the host does not change its mind about who is online meanwhile.
-/
import VirtualGic.Proofs.Addressing
import VirtualGic.Proofs.Deliveries
import VirtualGic.Proofs.Faultless
import VirtualGic.Proofs.Isolation
import VirtualGic.Proofs.Steady
import Mathlib.Data.List.Sort

namespace VirtualGic

set_option autoImplicit false

/-! ## Bits of the value -/

namespace SoftwareInterrupt

/-- Whether `value` selects `target` when VCPU `v` writes it. Bits 24 and 25 choose the
filter, and bits 16 to 23 are the mask. -/
def selects (value : Word) (v target : Nat) : Bool :=
  match value.getLsbD 25, value.getLsbD 24 with
  | false, false => target < maxVcpus && value.getLsbD (16 + target)
  | false, true => target != v
  | true, false => target == v
  | true, true => false

/-- The private line that `value` names. -/
def named (value : Word) : Fin 32 :=
  ⟨value.toNat % 16, by omega⟩

/-- The bits that matter of `value`: those of the line and of the filter, and those of the
mask where the filter asks for it. -/
def relevant (value : Word) : Word :=
  if value.getLsbD 25 || value.getLsbD 24 then 0x0300000f else 0x03ff000f

theorem filter?_eq (value : Word) :
    filter? value = match value.getLsbD 25, value.getLsbD 24 with
      | false, false => some .list
      | false, true => some .allButSelf
      | true, false => some .selfOnly
      | true, true => none := by
  have low : value.getLsbD 24 = (targetFilter.read value).getLsbD 0 :=
    (targetFilter.getLsbD_read (by decide) value 0).symm
  have high : value.getLsbD 25 = (targetFilter.read value).getLsbD 1 :=
    (targetFilter.getLsbD_read (by decide) value 1).symm
  have small : (targetFilter.read value).toNat < 4 := by
    rw [Field.read, BitVec.toNat_and]
    exact Nat.lt_of_le_of_lt Nat.and_le_right (by decide)
  rw [filter?, low, high, BitVec.getLsbD, BitVec.getLsbD]
  generalize (targetFilter.read value).toNat = choice at small
  obtain rfl | rfl | rfl | rfl : choice = 0 ∨ choice = 1 ∨ choice = 2 ∨ choice = 3 := by omega
  · rfl
  · rfl
  · rfl
  · rfl

section Relevant

variable {value other : Word} (same : other &&& relevant value = value &&& relevant value)
include same

theorem getLsbD_of_relevant {bit : Nat} (matters : (relevant value).getLsbD bit = true) :
    other.getLsbD bit = value.getLsbD bit := by
  have bits := congrArg (·.getLsbD bit) same
  simpa only [BitVec.getLsbD_and, matters, Bool.and_true] using bits

theorem named_of_relevant : named other = named value := by
  have matters : ∀ bit : Fin 4, (relevant value).getLsbD bit.val = true := by
    unfold relevant
    split <;> decide
  refine Fin.ext (Nat.eq_of_testBit_eq fun bit => ?_)
  simp only [named]
  rw [Nat.testBit_mod_two_pow (j := 4), Nat.testBit_mod_two_pow (j := 4)]
  by_cases low : bit < 4
  · rw [← BitVec.getLsbD, ← BitVec.getLsbD, getLsbD_of_relevant same (matters ⟨bit, low⟩)]
  · simp only [low, decide_false, Bool.false_and]

theorem selects_of_relevant (v target : Nat) : selects other v target = selects value v target := by
  have matters : (relevant value).getLsbD 24 = true ∧ (relevant value).getLsbD 25 = true := by
    unfold relevant
    split <;> decide
  have low := getLsbD_of_relevant same matters.1
  have high := getLsbD_of_relevant same matters.2
  simp only [selects, low, high]
  split
  · rename_i high low
    have masked : relevant value = 0x03ff000f := by
      rw [relevant, high, low]; rfl
    by_cases small : target < maxVcpus
    · have inside : ∀ target : Fin 8, (0x03ff000f#32).getLsbD (16 + target.val) = true := by decide
      rw [getLsbD_of_relevant same (masked ▸ inside ⟨target, small⟩)]
    · simp only [small, decide_false, Bool.false_and]
  · rfl
  · rfl
  · rfl

end Relevant

end SoftwareInterrupt

/-- The VCPUs that hear of `value` when VCPU `v` writes it, in ascending order. They have
state, are `up` and are selected. -/
def Distributor.addressees (d : Distributor) (up : Nat → Bool) (v : Nat) (value : Word) :
    List Nat :=
  d.present.filter fun target => up target && SoftwareInterrupt.selects value v target

theorem Distributor.mem_addressees {d : Distributor} {up : Nat → Bool} {v target : Nat}
    {value : Word} :
    target ∈ d.addressees up v value ↔ ((d.vcpu? target).isSome = true ∧ up target = true) ∧
      SoftwareInterrupt.selects value v target = true := by
  rw [addressees, List.mem_filter, mem_present, Bool.and_eq_true, and_assoc]

theorem Distributor.resolve_of_private {d : Distributor} {v : Nat}
    (present : (d.vcpu? v).isSome = true) (line : Fin 32) :
    d.resolve v line.val = .ok (.banked v line) :=
  resolve_of_seenBy present (show (LineRef.banked v line).SeenBy v from rfl)
    ((d.descriptor?_isSome_banked v line).trans present)

namespace Machine

variable {σ : Type} [Host σ]

/-- Raise `line` on each of some VCPUs. -/
def injectAll (line : Nat) (targets : List Nat) (m : Machine σ) : Machine σ :=
  targets.foldl (fun m target => (m.inject target line).2) m

/-- What VCPU `v` does to `s` by `value`, with the answer and the machine that it leaves. -/
structure Dispatches (s : Machine σ) (up : Nat → Bool) (v : Nat) (value : Word)
    (done : Result Unit × Machine σ) : Prop where
  /-- The value is accepted. -/
  accepted : done.1 = .ok ()
  /-- The line is raised on the addressees, one after the other. -/
  dist : done.2.dist = (s.injectAll (value.toNat % 16) (s.dist.addressees up v value)).dist
  /-- The same calls are made for that, in the same order. -/
  calls : done.2.calls = (s.injectAll (value.toNat % 16) (s.dist.addressees up v value)).calls
  /-- Each addressee gets one delivery. -/
  delivered : ∃ made, Deliveries Delivery (fun _ => False) s made
      (s.injectAll (value.toNat % 16) (s.dist.addressees up v value)) ∧
    made.map (fun d => (d.ref, d.holder)) = (s.dist.addressees up v value).map fun target =>
      (.banked target (SoftwareInterrupt.named value), target)
  /-- No other VCPU can tell that anything happened. -/
  others : ∀ w, w ∉ s.dist.addressees up v value → done.2.dist.reach w = s.dist.reach w

/-! ## Raising a private line on many VCPUs -/

variable {up : Nat → Bool} {like : σ → σ → Prop} {a b s : Machine σ}

theorem vcpu?_isSome_inject (s : Machine σ) (v line w : Nat) :
    ((s.inject v line).2.dist.vcpu? w).isSome = (s.dist.vcpu? w).isSome := by
  refine vcpu?_isSome_of_steps ?_ (steps_inject s v line) w
  intro a kind
  cases a with
  | allocate | release => exact kind
  | _ => trivial

/-- A private line is held by its own VCPU if by any, so that is who gets the delivery. -/
theorem delivery_of_private (consistent : Consistent s.dist) {v : Nat}
    (present : (s.dist.vcpu? v).isSome = true) (online : (s.online v).1 = true) (line : Fin 32) :
    ∃ cpu?, s.Delivery ⟨.banked v line, v, cpu?⟩ (s.inject v line.val).2 := by
  have delivery := delivery_inject consistent (Distributor.resolve_of_private present line)
    fun _ => online
  have holder : (s.dist.descriptor (.banked v line)).owner.getD v = v := by
    cases owner : (s.dist.descriptor (.banked v line)).owner with
    | none => rfl
    | some holder =>
        exact (consistent.owned (Distributor.descriptor?_of_owner owner) owner).1.symm
  rwa [holder] at delivery

theorem deliveries_injectAll (steady : Host.Steady up like) (line : Fin 32) {targets : List Nat}
    (consistent : Consistent s.dist) (akin : Akin like s s)
    (ready : ∀ target ∈ targets, (s.dist.vcpu? target).isSome = true ∧ up target = true) :
    ∃ made, Deliveries Delivery (fun _ => False) s made (s.injectAll line targets) ∧
      made.map (fun d => (d.ref, d.holder)) =
        targets.map fun target => (.banked target line, target) := by
  induction targets generalizing s with
  | nil => exact ⟨[], .start, rfl⟩
  | cons target rest ih =>
      obtain ⟨present, online⟩ := ready target List.mem_cons_self
      obtain ⟨cpu?, first⟩ := delivery_of_private consistent present
        ((akin.online steady target).1.trans online) line
      obtain ⟨made, others, same⟩ := ih ((steps_inject s target line).consistent consistent)
        (akin.inject steady target line).2 fun other member =>
          vcpu?_isSome_inject s target line other ▸ ready other (List.mem_cons_of_mem _ member)
      refine ⟨⟨.banked target line, target, cpu?⟩ :: made, ?_, congrArg (_ :: ·) same⟩
      have one : Deliveries Delivery (fun _ => False) s [⟨.banked target line, target, cpu?⟩]
          (s.inject target line).2 := .stage .start first
      exact one.trans others

theorem reach_injectAll (line : Fin 32) {targets : List Nat} (consistent : Consistent s.dist)
    {w : Nat} (other : w ∉ targets) : (s.injectAll line targets).dist.reach w = s.dist.reach w := by
  induction targets generalizing s with
  | nil => rfl
  | cons target rest ih =>
      have ne : w ≠ target := fun same => other (List.mem_cons.2 (.inl same))
      have outside : w ∉ rest := fun member => other (List.mem_cons_of_mem _ member)
      have steps := steps_inject s target line
      have within : Steps (Act.Within target (some 0)) s (s.inject target line).2 := by
        refine steps.mono fun a delivers => delivers.enables.within ?_
        rintro ref ⟨seen, member⟩
        refine ⟨seen, congrArg some ?_⟩
        rw [List.mem_singleton.1 member, rankOfLine]
        exact (Nat.div_eq_of_lt line.isLt).symm
      have first := within.reach_of_within consistent ne fun _ same => (Option.some.inj same).symm
      exact (ih (steps.consistent consistent) outside).trans first

/-! ## Sending to one target after the other -/

theorem sendTo_akin (steady : Host.Steady up like) (akin : Akin like a b) (v : Nat)
    (value : Word) (target : Nat) :
    Akin like (sendTo v value a target)
      (if (b.dist.vcpu? target).isSome && up target then
        (b.inject target (SoftwareInterrupt.named value)).2
      else b) := by
  unfold sendTo
  rw [akin.dist]
  cases found : b.dist.vcpu? target with
  | none => exact akin.note_left _
  | some state =>
      obtain ⟨answer, asked⟩ := akin.online steady target
      simp only [answer, Option.isSome_some, Bool.true_and]
      cases up target with
      | false => exact asked.note_left _
      | true =>
          -- A software line is private, so a VCPU with state has a descriptor for it.
          have present : (b.dist.vcpu? target).isSome = true :=
            Option.isSome_iff_exists.2 ⟨_, found⟩
          have resolved := Distributor.resolve_of_private present (SoftwareInterrupt.named value)
          obtain ⟨-, looked⟩ := Distributor.resolve_eq_ok_iff.1 resolved
          have dist : (a.online target).2.dist = b.dist := asked.dist
          rw [SoftwareInterrupt.line_toNat, dist, inject_of_resolve resolved, if_pos rfl,
            if_pos rfl]
          simp only [show b.dist.lineRef? target (value.toNat % 16) = _ from looked]
          exact (asked.note_left _).deliver steady target _

theorem foldl_sendTo_akin (steady : Host.Steady up like) (akin : Akin like a b) (v : Nat)
    (value : Word) (targets : List Nat) :
    Akin like (targets.foldl (sendTo v value) a)
      (b.injectAll (SoftwareInterrupt.named value)
        (targets.filter fun target => (b.dist.vcpu? target).isSome && up target)) := by
  induction targets generalizing a b with
  | nil => exact akin
  | cons target rest ih =>
      have first := sendTo_akin steady akin v value target
      rw [List.foldl_cons, List.filter_cons]
      split
      · rename_i reached
        rw [if_pos reached] at first
        -- Raising a line frees no VCPU, so the targets can be filtered before the first is served.
        have next := ih first
        simp only [vcpu?_isSome_inject] at next
        exact next
      · rename_i passed
        rw [if_neg passed] at first
        exact ih first

/-! ## The three ways to choose targets -/

theorem ascending_softwareTargets (m : Machine σ) (v : Nat) (value : Word)
    (choice : TargetFilter) : (m.softwareTargets v value choice).1.Pairwise (· < ·) := by
  cases choice with
  | list =>
      show (SetBits.toList _).Pairwise _
      rw [SetBits.toList_eq_filter]
      exact List.pairwise_lt_range.filter _
  | allButSelf =>
      exact ((List.pairwise_lt_range.filter _).filter _).sublist (sublist_onlineAmong m _)
  | selfOnly => exact List.pairwise_singleton _ v

/-- Of the VCPUs that have state and are up, each way takes those that are selected. -/
theorem mem_softwareTargets_iff (steady : Host.Steady up like) (akin : Akin like a b) {v : Nat}
    {value : Word} {choice : TargetFilter} (chosen : SoftwareInterrupt.filter? value = some choice)
    {target : Nat} (present : (a.dist.vcpu? target).isSome = true) (online : up target = true) :
    target ∈ (a.softwareTargets v value choice).1 ↔
      SoftwareInterrupt.selects value v target = true := by
  rw [SoftwareInterrupt.filter?_eq] at chosen
  unfold SoftwareInterrupt.selects
  split at chosen
  · obtain rfl := Option.some.inj chosen
    simp only [softwareTargets, SetBits.mem_toList_iff]
    rw [SoftwareInterrupt.targetList.getLsbD_read (by decide)]
    rfl
  · obtain rfl := Option.some.inj chosen
    simp only [softwareTargets, (onlineAmong_of_akin steady akin _).1,
      List.mem_filter, Distributor.mem_present, present, online, true_and, and_true]
  · obtain rfl := Option.some.inj chosen
    simp only [softwareTargets, List.mem_singleton, beq_iff_eq]
  · cases chosen

theorem filter_softwareTargets (steady : Host.Steady up like) (akin : Akin like a b) {v : Nat}
    {value : Word} {choice : TargetFilter}
    (chosen : SoftwareInterrupt.filter? value = some choice) :
    (a.softwareTargets v value choice).1.filter
        (fun target => (a.dist.vcpu? target).isSome && up target) =
      a.dist.addressees up v value := by
  refine List.Pairwise.eq_of_mem_iff ((ascending_softwareTargets a v value choice).filter _)
    ((List.pairwise_lt_range.filter _).filter _) fun target => ?_
  rw [List.mem_filter, Bool.and_eq_true, Distributor.mem_addressees, and_comm]
  exact and_congr_right fun ready => mem_softwareTargets_iff steady akin chosen ready.1 ready.2

theorem softwareTargets_akin (steady : Host.Steady up like) (akin : Akin like a b) (v : Nat)
    (value : Word) (choice : TargetFilter) :
    Akin like (a.softwareTargets v value choice).2 b := by
  cases choice with
  | list | selfOnly => exact akin
  | allButSelf => exact (onlineAmong_of_akin steady akin _).2

theorem sendSoftware_akin (steady : Host.Steady up like) (akin : Akin like a b)
    (bounded : a.dist.Bounded) {v : Nat} (present : (a.dist.vcpu? v).isSome = true)
    (value : Word) :
    Akin like (a.sendSoftware v value).2
      (b.injectAll (SoftwareInterrupt.named value) (b.dist.addressees up v value)) := by
  unfold sendSoftware
  cases chosen : SoftwareInterrupt.filter? value with
  | none =>
      have nobody : b.dist.addressees up v value = [] := by
        refine List.eq_nil_iff_forall_not_mem.2 fun target member => ?_
        have selected := (Distributor.mem_addressees.1 member).2
        rw [SoftwareInterrupt.filter?_eq] at chosen
        unfold SoftwareInterrupt.selects at selected
        split at chosen <;> simp_all
      rw [nobody]
      exact akin.note_left _
  | some choice =>
      have room := length_softwareTargets bounded present value choice
      have selected := filter_softwareTargets (v := v) steady akin chosen
      rw [akin.dist] at selected
      simp only [if_neg (Nat.not_lt.2 room), ← selected]
      exact foldl_sendTo_akin steady (softwareTargets_akin steady akin v value choice) v value _

/-! ## Dispatching -/

theorem Dispatches.of_akin (steady : Host.Steady up like) (consistent : Consistent s.dist)
    (akin : Akin like s s) {v : Nat} {value : Word} {done : Result Unit × Machine σ}
    (accepted : done.1 = .ok ())
    (same : Akin like done.2
      (s.injectAll (SoftwareInterrupt.named value) (s.dist.addressees up v value))) :
    s.Dispatches up v value done where
  accepted := accepted
  dist := same.dist
  calls := same.calls
  delivered := deliveries_injectAll steady (SoftwareInterrupt.named value) consistent akin
    fun _ member => (Distributor.mem_addressees.1 member).1
  others := fun w outside => by
    rw [same.dist]
    exact reach_injectAll (SoftwareInterrupt.named value) consistent outside

/-- A value does what any other does that agrees with it on the bits that matter. -/
theorem dispatches_of_relevant (steady : Host.Steady up like) (consistent : Consistent s.dist)
    (bounded : s.dist.Bounded) (akin : Akin like s s) {v : Nat}
    (present : (s.dist.vcpu? v).isSome = true) {value other : Word}
    (same : other &&& SoftwareInterrupt.relevant value =
      value &&& SoftwareInterrupt.relevant value) :
    s.Dispatches up v value (s.dispatchSoftware v other) ∧
      s.Dispatches up v value (s.write v 0xf00 .word other) := by
  have line := SoftwareInterrupt.named_of_relevant same
  have targets : s.dist.addressees up v other = s.dist.addressees up v value := by
    simp only [Distributor.addressees, SoftwareInterrupt.selects_of_relevant same]
  constructor
  · obtain ⟨state, there⟩ := Option.isSome_iff_exists.1 present
    have sent : s.dispatchSoftware v other = s.sendSoftware v other := by
      unfold dispatchSoftware
      rw [Distributor.requireVcpu_eq_ok_iff.2 there]
    have done := sendSoftware_akin steady akin bounded present other
    rw [line, targets, ← sent] at done
    exact .of_akin steady consistent akin
      (sent ▸ sendSoftware_ok bounded present other) done
  · obtain ⟨group, register, first, accepts⟩ :=
      Frame.accepts .softwareInterrupt .word 0xf00 0xf00 0 (by decide) (by decide)
    have sent : s.write v 0xf00 .word other =
        (s.note (.registerWritten v group.name (0xf00 - group.first) other)).sendSoftware v
          other := by
      rw [write_of_accepts present (first ▸ accepts), register]
      rfl
    have done := sendSoftware_akin steady
      (akin.note_left (.registerWritten v group.name (0xf00 - group.first) other))
      bounded present other
    rw [line, targets, ← sent] at done
    refine .of_akin steady consistent akin ?_ done
    rw [sent]
    exact sendSoftware_ok (m := s.note _) bounded present other

/-- Software interrupts are injections. In every history, whatever the value, the line that it
names is raised on every VCPU it selects that has state and is online, in ascending order. -/
theorem dispatches_run {config : Config} {host : σ} {m : Machine σ}
    (started : Machine.start config host = .ok m) (operations : List Operation)
    (steady : Host.Steady up like)
    (akin : like (m.run operations).host (m.run operations).host) {v : Nat}
    (present : ((m.run operations).dist.vcpu? v).isSome = true) (value : Word) :
    let s := m.run operations
    s.Dispatches up v value (s.dispatchSoftware v value) ∧
      s.Dispatches up v value (s.write v 0xf00 .word value) ∧
      ∀ other : Word,
        other &&& SoftwareInterrupt.relevant value = value &&& SoftwareInterrupt.relevant value →
          s.Dispatches up v value (s.dispatchSoftware v other) ∧
            s.Dispatches up v value (s.write v 0xf00 .word other) := by
  intro s
  have consistent : Consistent s.dist := consistent_run started operations
  have bounded : s.dist.Bounded := bounded_run started operations
  have itself := dispatches_of_relevant steady consistent bounded ⟨rfl, rfl, akin⟩ present
    (rfl : value &&& SoftwareInterrupt.relevant value = _)
  refine ⟨itself.1, itself.2, fun other same => ?_⟩
  exact dispatches_of_relevant steady consistent bounded ⟨rfl, rfl, akin⟩ present same

/-- Line 5 is sent to VCPUs 0 to 3 and 7. VCPU 1 has it on its list, VCPU 2 is offline, and
VCPUs 3 and 7 have no state. Setting bits 15 and 31 as well changes nothing. -/
theorem dispatches_run_mixed_targets :
    let m : Machine SteadyHost := .fresh (.forHardware 4 64) { up := [0, 1, 3] }
    let s := m.run [.initVcpu 0, .initVcpu 1, .initVcpu 2, .inject 1 5]
    s.dist.addressees ([0, 1, 3].contains ·) 0 0x008f0005 = [0, 1] ∧
      s.Dispatches ([0, 1, 3].contains ·) 0 0x008f0005 (s.dispatchSoftware 0 0x008f0005) ∧
      s.Dispatches ([0, 1, 3].contains ·) 0 0x008f0005 (s.write 0 0xf00 .word 0x808f8005) := by
  intro m s
  have started : Machine.start (.forHardware 4 64) ({ up := [0, 1, 3] } : SteadyHost) = .ok m := rfl
  have present : (s.dist.vcpu? 0).isSome = true := by decide +kernel
  have same : (0x808f8005 : Word) &&& SoftwareInterrupt.relevant 0x008f0005 =
      0x008f0005 &&& SoftwareInterrupt.relevant 0x008f0005 := by decide +kernel
  have settled : s.host = { up := [0, 1, 3] } := by decide +kernel
  obtain ⟨called, -, others⟩ := dispatches_run started
    [.initVcpu 0, .initVcpu 1, .initVcpu 2, .inject 1 5]
    (SteadyHost.steady { up := [0, 1, 3] }) ⟨settled, settled⟩ present 0x008f0005
  exact ⟨by decide +kernel, called, (others _ same).2⟩

end Machine

end VirtualGic
