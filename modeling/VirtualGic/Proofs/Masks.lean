/-
# Proofs.Masks — a mask is the sum of its lines

The lines of a mask are enabled or disabled one after the other, and each can go another way:
it has no descriptor, is inflight nowhere, here or elsewhere, is shown or not, is backed by a
physical interrupt, or is the event-channel line and queued on the way. What becomes of a line
does not depend on the lines before it, though, so the order of the lines does not show
(`Enabled.agree`, `Dequeued.agree`), and a line that is served twice is as one that is served
once (`Enabled.again`, `Dequeued.again`).

`sums_run` puts this together for masks. Two of them without a common line can be written one
after the other, in either order, or at once.
-/
import VirtualGic.Proofs.Enabling

namespace VirtualGic

set_option autoImplicit false

/-! ## The lines of a mask -/

/-- The numbers of the lines of a rank at the bits of `mask`. -/
def linesAt (rank : Nat) (mask : Word) : List Nat :=
  ((List.range 32).filter mask.getLsbD).map fun bit => linesPerRank * rank + bit

theorem nodup_linesAt (rank : Nat) (mask : Word) : (linesAt rank mask).Nodup := by
  refine List.Nodup.map_on ?_ (List.nodup_range.filter _)
  intro one _ other _ same
  exact Nat.add_left_cancel same

/-- Masks without a common bit have no line in common. -/
theorem disjoint_linesAt (rank : Nat) {first second : Word} (apart : first &&& second = 0) :
    List.Disjoint (linesAt rank first) (linesAt rank second) := by
  intro line one other
  obtain ⟨bit, member, rfl⟩ := List.mem_map.1 one
  obtain ⟨bit', member', same⟩ := List.mem_map.1 other
  obtain rfl := Nat.add_left_cancel same
  have both : (first &&& second).getLsbD bit' = true := by
    rw [BitVec.getLsbD_and, (List.mem_filter.1 member).2, (List.mem_filter.1 member').2]
    rfl
  rw [apart] at both
  simp at both

theorem linesAt_or (rank : Nat) {first second : Word} (apart : first &&& second = 0) :
    (linesAt rank (first ||| second)).Perm (linesAt rank first ++ linesAt rank second) := by
  refine (List.perm_ext_iff_of_nodup (nodup_linesAt rank _) ?_).2 fun line => ?_
  · exact (nodup_linesAt rank first).append (nodup_linesAt rank second)
      (disjoint_linesAt rank apart)
  · simp only [linesAt, List.mem_append, List.mem_map, List.mem_filter, BitVec.getLsbD_or,
      Bool.or_eq_true, and_or_left, or_and_right, exists_or]

theorem Descriptor.dequeued_dequeued (p : Descriptor) : p.dequeued.dequeued = p.dequeued := by
  cases owner : p.owner with
  | none => simp [dequeued, isInflight, owner]
  | some holder => simp [dequeued, isInflight, owner]

theorem Config.rank_lt_of_le {config : Config} (valid : config.validate = .ok ()) {rank : Nat}
    (within : rank ≤ config.sharedRanks) : rank < 32 := by
  have few := Config.lines_of_validate valid
  simp only [linesPerRank, maxLines] at few
  simp only [Config.sharedRanks, linesPerRank] at within
  omega

theorem LineRef.named_congr {v : Nat} {lines lines' : List Nat} (same : lines.Perm lines')
    (ref : LineRef) : ref.Named v lines ↔ ref.Named v lines' :=
  and_congr_right fun _ => same.mem_iff

namespace Machine

variable {σ : Type}

/-- Two machines in one state that have told the physical controller the same, in whatever
order. -/
structure Agree (m m' : Machine σ) : Prop where
  dist : m.dist = m'.dist
  physical : m.physical.Perm m'.physical

/-- What `serve` does with a mask, starting from `s`, is what it does with its lines. -/
structure Sums (s : Machine σ) (serve : Word → Machine σ → Result Unit × Machine σ) : Prop where
  accepted : ∀ mask, (serve mask s).1 = .ok ()
  acceptedNext : ∀ first second, (serve second (serve first s).2).1 = .ok ()
  /-- Two masks are served one after the other as at once, -/
  sum : ∀ {first second : Word}, first &&& second = 0 →
    Agree (serve second (serve first s).2).2 (serve (first ||| second) s).2
  /-- in either order. -/
  comm : ∀ {first second : Word}, first &&& second = 0 →
    Agree (serve second (serve first s).2).2 (serve first (serve second s).2).2
  /-- A mask can be served again, and nothing changes. -/
  again : ∀ mask, (serve mask (serve mask s).2).2.dist = (serve mask s).2.dist

/-- Masks sum up if stretches of lines compose, do not depend on the order of the lines, and
change nothing the second time. -/
theorem Sums.of_stretches {s : Machine σ} {serve : Word → Machine σ → Result Unit × Machine σ}
    {rank : Nat} {R : List Nat → Machine σ → Machine σ → Prop}
    (first : ∀ mask, (serve mask s).1 = .ok () ∧ R (linesAt rank mask) s (serve mask s).2)
    (next : ∀ before mask, (serve mask (serve before s).2).1 = .ok () ∧
      R (linesAt rank mask) (serve before s).2 (serve mask (serve before s).2).2)
    (append : ∀ {lines lines' m m' m''}, R lines m m' → R lines' m' m'' →
      List.Disjoint lines lines' → R (lines ++ lines') m m'')
    (agree : ∀ {lines lines' m m' m''}, R lines m m' → R lines' m m'' →
      lines.Perm lines' → Agree m' m'')
    (again : ∀ {lines m m' m''}, R lines m m' → R lines m' m'' →
      m''.dist = m'.dist) : s.Sums serve := by
  have both : ∀ {one other : Word}, one &&& other = 0 →
      R (linesAt rank one ++ linesAt rank other) s (serve other (serve one s).2).2 :=
    fun apart => append (first _).2 (next _ _).2 (disjoint_linesAt rank apart)
  refine ⟨fun mask => (first mask).1, fun one other => (next one other).1, fun apart => ?_,
    fun apart => ?_, fun mask => again (first mask).2 (next mask mask).2⟩
  · exact agree (both apart) (first _).2 (linesAt_or rank apart).symm
  · exact agree (both apart) (both (BitVec.and_comm _ _ ▸ apart)) List.perm_append_comm

/-! ## Stretches of the same lines -/

namespace Enabled

variable {due : Bool} {v : Nat} {lines lines' : List Nat} {m m' m'' : Machine σ}

theorem agree (one : Enabled due v lines m m') (other : Enabled due v lines' m m'')
    (same : lines.Perm lines') : Agree m' m'' := by
  have found : (lines.filterMap (m.dist.line? v)).Perm (lines'.filterMap (m.dist.line? v)) :=
    same.filterMap _
  constructor
  · apply Distributor.ext_of_delivery
    · rw [one.registers, other.registers]
    · intro ref
      rw [one.descriptors, other.descriptors]
      simp only [LineRef.named_congr same]
    · intro w
      have queued := fun list => found.foldl_eq' (f := (m.dist.upcall v due).queue)
        (fun p _ q _ z => Upcall.queue_right_comm _ z p q) list
      rw [one.lists, other.lists]
      simp only [queued]
  · rw [one.physical, other.physical]
    exact (found.flatMap_right _).append_left _

theorem present (stretch : Enabled due v lines m m') (w : Nat) :
    (m'.dist.vcpu? w).isSome = (m.dist.vcpu? w).isSome := by
  rw [← Distributor.inflight?_isSome, ← Distributor.inflight?_isSome, stretch.lists]
  split
  · rw [Option.isSome_map]
  · rfl

theorem again (one : Enabled due v lines m m') (next : Enabled due v lines m' m'') :
    m''.dist = m'.dist := by
  have upcall := Distributor.upcall_of_registers one.registers v due
  apply Distributor.ext_of_delivery next.registers
  · intro ref
    rw [next.descriptors, upcall, one.descriptors]
    split
    · rw [Option.map_map]
      simp only [Function.comp_def, Upcall.enable_enable]
    · rfl
  · intro w
    have nobody : ∀ p ∈ lines.filterMap (m'.dist.line? v),
        (m.dist.upcall v due).claims p = false := by
      intro p member
      obtain ⟨line, inside, looked⟩ := List.mem_filterMap.1 member
      obtain ⟨ref, rfl, seen, found⟩ := Distributor.line?_eq_some_iff.1 looked
      rw [one.descriptors, if_pos ⟨seen, inside⟩] at found
      obtain ⟨q, -, rfl⟩ := Option.map_eq_some_iff.1 found
      exact Upcall.claims_enable _ q
    have unchanged : ∀ list, (lines.filterMap (m'.dist.line? v)).foldl
        (m.dist.upcall v due).queue list = list := by
      intro list
      refine (List.foldl_ext _ (fun list _ => list) list ?_).trans (List.foldl_fixed _)
      intro list p member
      rw [Upcall.queue, nobody p member, if_neg Bool.false_ne_true]
    rw [next.lists, upcall]
    simp only [unchanged, Option.map_id', ite_self]

end Enabled

namespace Dequeued

variable {v : Nat} {lines lines' : List Nat} {m m' m'' : Machine σ}

theorem agree (one : Dequeued v lines m m') (other : Dequeued v lines' m m'')
    (same : lines.Perm lines') : Agree m' m'' := by
  have found : (lines.filterMap (m.dist.line? v)).Perm (lines'.filterMap (m.dist.line? v)) :=
    same.filterMap _
  constructor
  · apply Distributor.ext_of_delivery
    · rw [one.registers, other.registers]
    · intro ref
      rw [one.descriptors, other.descriptors]
      simp only [LineRef.named_congr same]
    · intro w
      rw [one.lists, other.lists]
      simp only [LineRef.named_congr same]
  · rw [physical, physical, one.calls, other.calls]
    exact ((found.flatMap_right _).append_left _).filter _

theorem present (stretch : Dequeued v lines m m') (w : Nat) :
    (m'.dist.vcpu? w).isSome = (m.dist.vcpu? w).isSome := by
  rw [← Distributor.inflight?_isSome, ← Distributor.inflight?_isSome, stretch.lists,
    Option.isSome_map]

theorem again (one : Dequeued v lines m m') (next : Dequeued v lines m' m'') :
    m''.dist = m'.dist := by
  apply Distributor.ext_of_delivery next.registers
  · intro ref
    rw [next.descriptors, one.descriptors]
    split
    · rw [Option.map_map]
      simp only [Function.comp_def, Descriptor.dequeued_dequeued]
    · rfl
  · intro w
    rw [next.lists, one.lists, Option.map_map]
    simp only [Function.comp_def, Inflight.without_without, Bool.or_self]

end Dequeued

variable [Host σ]

/-! ## Whole masks -/

section Whole

variable {up latched : Nat → Bool} {S : σ → Prop} {s : Machine σ} {v rank : Nat} {mask : Word}
  {lines : List Nat}

theorem enableLines_of_present (present : (s.dist.vcpu? v).isSome = true) :
    s.enableLines v mask rank = s.enableMask v mask rank := by
  obtain ⟨vcpu, there⟩ := Option.isSome_iff_exists.1 present
  rw [enableLines, Distributor.requireVcpu_eq_ok_iff.2 there]

theorem disableLines_of_present (present : (s.dist.vcpu? v).isSome = true) :
    s.disableLines v mask rank = s.disableMask (fun _ => []) v mask rank := by
  obtain ⟨vcpu, there⟩ := Option.isSome_iff_exists.1 present
  rw [disableLines, disableLinesAmid, Distributor.requireVcpu_eq_ok_iff.2 there]

theorem enableLines_of_ok (present : (s.dist.vcpu? v).isSome = true)
    (masked : maskedLines rank mask = .ok lines) :
    s.enableLines v mask rank = (.ok (), lines.foldl (enableLine v) s) := by
  rw [enableLines_of_present present, enableMask, masked]

theorem disableLines_of_ok (present : (s.dist.vcpu? v).isSome = true)
    (masked : maskedLines rank mask = .ok lines) :
    s.disableLines v mask rank = (.ok (), lines.foldl (disableLine (fun _ => []) v) s) := by
  rw [disableLines_of_present present, disableMask_of_ok masked]

theorem enabled_enableLines (constant : Host.Constant up latched S) (inside : S s.host)
    (consistent : Consistent s.dist) (present : (s.dist.vcpu? v).isSome = true) (low : rank < 32)
    (mask : Word) :
    (s.enableLines v mask rank).1 = .ok () ∧
      Enabled (latched v && up v) v (linesAt rank mask) s (s.enableLines v mask rank).2 ∧
        S (s.enableLines v mask rank).2.host := by
  rw [enableLines_of_ok present (maskedLines_of_low mask low)]
  exact ⟨rfl, enabled_enableAll constant inside consistent present (nodup_linesAt rank mask)⟩

theorem dequeued_disableLines (consistent : Consistent s.dist)
    (present : (s.dist.vcpu? v).isSome = true) (low : rank < 32) (mask : Word) :
    (s.disableLines v mask rank).1 = .ok () ∧
      Dequeued v (linesAt rank mask) s (s.disableLines v mask rank).2 := by
  rw [disableLines_of_ok present (maskedLines_of_low mask low)]
  exact ⟨rfl, dequeued_disableAll consistent v (nodup_linesAt rank mask)⟩

theorem sums_enableLines (constant : Host.Constant up latched S) (inside : S s.host)
    (consistent : Consistent s.dist) (present : (s.dist.vcpu? v).isSome = true)
    (low : rank < 32) : s.Sums (fun mask m => m.enableLines v mask rank) := by
  have first := enabled_enableLines constant inside consistent present low
  refine .of_stretches (R := Enabled (latched v && up v) v)
    (fun mask => ⟨(first mask).1, (first mask).2.1⟩) (fun before mask => ?_) Enabled.append
    Enabled.agree Enabled.again
  obtain ⟨-, stretch, inside'⟩ := first before
  have still : Consistent (s.enableLines v before rank).2.dist :=
    consistent.perform (.enableLines v before rank)
  have alive := (stretch.present v).trans present
  obtain ⟨accepted, next, -⟩ := enabled_enableLines constant inside' still alive low mask
  exact ⟨accepted, next⟩

theorem sums_disableLines (consistent : Consistent s.dist)
    (present : (s.dist.vcpu? v).isSome = true) (low : rank < 32) :
    s.Sums (fun mask m => m.disableLines v mask rank) := by
  have first := dequeued_disableLines consistent present low
  refine .of_stretches (R := Dequeued v) first (fun before mask => ?_) Dequeued.append
    Dequeued.agree Dequeued.again
  have still : Consistent (s.disableLines v before rank).2.dist :=
    consistent.perform (.disableLines v before rank)
  have alive := ((first before).2.present v).trans present
  exact dequeued_disableLines still alive low mask

end Whole

/-- After every history, a mask of lines is enabled and disabled as the sum of its lines, as
long as the host does not change its mind. -/
theorem sums_run {up latched : Nat → Bool} {S : σ → Prop} {config : Config} {host : σ}
    {m : Machine σ} (started : Machine.start config host = .ok m) (operations : List Operation)
    (constant : Host.Constant up latched S) (inside : S (m.run operations).host) {v : Nat}
    (present : ((m.run operations).dist.vcpu? v).isSome = true) {rank : Nat}
    (within : rank ≤ config.sharedRanks) :
    (m.run operations).Sums (fun mask m => m.enableLines v mask rank) ∧
      (m.run operations).Sums (fun mask m => m.disableLines v mask rank) := by
  have low := Config.rank_lt_of_le (start_eq_ok_iff.1 started).1 within
  have consistent := consistent_run started operations
  exact ⟨sums_enableLines constant inside consistent present low,
    sums_disableLines consistent present low⟩

/-- Line 3 is shown to its owner, the physical interrupt behind line 5 is unmasked, and the
event-channel line is queued. In the other order, the calls come in another order. -/
theorem sums_run_event_channel :
    let m : Machine SteadyHost := .fresh (.forHardware 2 64) { up := [0, 1], latched := [0] }
    let s := m.run [.initVcpu 0, .initVcpu 1, .inject 0 3, .routePhysical 0 5 77]
    let t := (s.enableLines 0 0x28 0).2
    (s.Sums (fun mask m => m.enableLines 0 mask 0) ∧
        s.Sums (fun mask m => m.disableLines 0 mask 0)) ∧
      (t.enableLines 0 0x80000000 0).2.physical =
        [.raise 0 3 0, .enablePhysical 77, .raise 0 31 0] ∧
      ((s.enableLines 0 0x80000000 0).2.enableLines 0 0x28 0).2.physical =
        [.raise 0 31 0, .raise 0 3 0, .enablePhysical 77] ∧
      ((t.enableLines 0 0x80000000 0).2.dist.inflight? 0).map (·.lines) = some [3, 31] ∧
      (((t.enableLines 0 0x80000000 0).2.disableLines 0 0x8 0).2.disableLines 0 0x80000020 0).2.dist =
        ((t.enableLines 0 0x80000000 0).2.disableLines 0 0x80000028 0).2.dist := by
  intro m s t
  have started : Machine.start (.forHardware 2 64)
    ({ up := [0, 1], latched := [0] } : SteadyHost) = .ok m := rfl
  have unmoved : s.host = { up := [0, 1], latched := [0] } := by decide +kernel
  exact ⟨sums_run started _ (SteadyHost.constant _) unmoved (by decide +kernel) (by decide),
    by decide +kernel, by decide +kernel, by decide +kernel, by decide +kernel⟩

end Machine

end VirtualGic
