/-
# Proofs.RankIndex — which lines a rank index names

Lines are enabled and disabled by the index of a rank and a mask over its lines. The index is
any 64-bit number, and the numbers of the lines are computed from it in 64 bits and then cut
down to 32. That is exact for the ranks whose lines have 32-bit numbers: the lines of the mask
are served, one after the other, and no others (`Serves`), which is nothing at all in a rank
that is not configured.

Beyond them it is not. After `rankPeriod` ranks the line numbers begin again, so that an index
that names nothing enables and disables the lines of another rank, and from `rankLimit` on the
computation overflows. `served_by_rank_run` says what every index does, and
`rank_beyond_is_served` shows both at a rank index far outside.
-/
import VirtualGic.Proofs.Masks

namespace VirtualGic

set_option autoImplicit false

/-- After so many ranks, the 32-bit numbers of their lines begin again. -/
def rankPeriod : Nat := range32 / linesPerRank

/-- So many ranks have lines with 64-bit numbers. -/
def rankLimit : Nat := range64 / linesPerRank

/-! ## Numbers of lines -/

section Numbers

variable {rank : Nat} {mask : Word}

theorem maskedLines_of_lt_limit (inside : rank < rankLimit) (mask : Word) :
    maskedLines rank mask = .ok (((List.range 32).filter mask.getLsbD).map fun bit =>
      (rank * linesPerRank + bit) % range32) := by
  have fits : ¬ (mask ≠ 0 ∧ range64 ≤ rank * linesPerRank) := by
    simp only [rankLimit, range64, linesPerRank] at inside ⊢
    omega
  rw [maskedLines, if_neg fits, SetBits.toList_eq_filter]

theorem maskedLines_of_lt (inside : rank < rankPeriod) (mask : Word) :
    maskedLines rank mask = .ok (linesAt rank mask) := by
  have limit : rank < rankLimit := by
    simp only [rankPeriod, rankLimit, range32, range64, linesPerRank] at inside ⊢
    omega
  rw [maskedLines_of_lt_limit limit, linesAt]
  refine congrArg Except.ok (List.map_congr_left fun bit member => ?_)
  have small := List.mem_range.1 (List.mem_filter.1 member).1
  simp only [rankPeriod, range32, linesPerRank] at inside ⊢
  omega

/-- A rank has the line numbers of the rank one period before. -/
theorem maskedLines_mod (inside : rank < rankLimit) (mask : Word) :
    maskedLines rank mask = maskedLines (rank % rankPeriod) mask := by
  have limit : rank % rankPeriod < rankLimit :=
    Nat.lt_of_le_of_lt (Nat.mod_le rank rankPeriod) inside
  rw [maskedLines_of_lt_limit inside, maskedLines_of_lt_limit limit]
  refine congrArg Except.ok (List.map_congr_left fun bit _ => ?_)
  simp only [rankPeriod, range32, linesPerRank]
  omega

theorem maskedLines_of_limit_le (beyond : rankLimit ≤ rank) (some : mask ≠ 0) :
    maskedLines rank mask = .error .arithmeticOverflow := by
  have large : range64 ≤ rank * linesPerRank := by
    simp only [rankLimit, range64, linesPerRank] at beyond ⊢
    omega
  rw [maskedLines, if_pos ⟨some, large⟩]

theorem maskedLines_zero (rank : Nat) : maskedLines rank 0 = .ok [] := by
  rw [maskedLines, if_neg (by simp)]
  rfl

end Numbers

theorem LineRef.masked_iff_selected {v rank : Nat} {mask : Word} {ref : LineRef}
    (inside : rank < rankPeriod) : ref.Masked v mask rank ↔ ref.Selected v rank mask := by
  rw [← LineRef.selected_iff_named]
  constructor
  · rintro ⟨lines, masked, named⟩
    rw [maskedLines_of_lt inside] at masked
    obtain rfl := Except.ok.inj masked
    exact named
  · intro named
    exact ⟨_, maskedLines_of_lt inside mask, named⟩

/-! ## Lines that are not named -/

namespace Act

variable {a : Act} {d : Distributor} {S : LineRef → Prop} {ref : LineRef}

theorem Enables.descriptor?_apply (enables : a.Enables S) (outside : ¬ S ref) :
    (a.apply d).descriptor? ref = d.descriptor? ref := by
  cases a with
  | ask | note | call => rfl
  | enable target | retrigger _ target | link _ target _ =>
      have other : target ≠ ref := by
        rintro rfl
        exact outside enables
      rw [descriptor?_apply_of_change? rfl, if_neg other]
  | _ => exact enables.elim

theorem Disables.descriptor?_apply (disables : a.Disables S) (outside : ¬ S ref) :
    (a.apply d).descriptor? ref = d.descriptor? ref := by
  cases a with
  | ask | note | call => rfl
  | touch target report =>
      cases report with
      | disabled =>
          have other : target ≠ ref := by
            rintro rfl
            exact outside disables
          rw [descriptor?_apply_of_change? rfl, if_neg other]
      | _ => exact disables.elim
  | unlink _ target =>
      have other : target ≠ ref := by
        rintro rfl
        exact outside disables
      rw [descriptor?_apply_of_change? rfl, if_neg other]
  | _ => exact disables.elim

end Act

theorem Steps.descriptor?_kept {σ : Type} {K : Act → Prop} {m m' : Machine σ} {ref : LineRef}
    (steps : Steps K m m')
    (spares : ∀ a, K a → ∀ d, (a.apply d).descriptor? ref = d.descriptor? ref) :
    m'.dist.descriptor? ref = m.dist.descriptor? ref := by
  refine steps.kept (P := fun s => s.dist.descriptor? ref = m.dist.descriptor? ref) ?_ rfl
  intro b a c kind step before
  rw [step.dist, spares a kind, before]

theorem Distributor.lineRef?_of_shape {d d' : Distributor} {v : Nat} (same : d'.shape = d.shape)
    (present : (d'.vcpu? v).isSome = (d.vcpu? v).isSome) (line : Nat) :
    d'.lineRef? v line = d.lineRef? v line := by
  simp only [shape, Prod.mk.injEq] at same
  unfold lineRef?
  rw [same.2.2.1]
  split
  · cases here : d.vcpu? v <;> cases there : d'.vcpu? v <;> simp [here, there] at present ⊢
  · rfl

namespace Machine

variable {σ : Type} [Host σ]

/-! ## Lines that are -/

/-- `outcome` is that of serving the lines at the bits of `mask` in a rank, as VCPU `v` sees
them, by `serve`, which enables or disables a line. -/
structure Serves (s : Machine σ) (v : Nat) (mask : Word) (rank : Nat)
    (serve : Machine σ → Nat → Machine σ) (enabled : Bool) (outcome : Result Unit × Machine σ) :
    Prop where
  /-- Those that have descriptors are served in ascending order. -/
  served : outcome =
    (.ok (), ((linesAt rank mask).filter fun line => (s.dist.lineRef? v line).isSome).foldl serve s)
  selected : ∀ {ref : LineRef}, ref.Selected v rank mask →
    outcome.2.dist.flag? ref = (s.dist.flag? ref).map fun _ => enabled
  others : ∀ {ref : LineRef}, ¬ ref.Selected v rank mask →
    outcome.2.dist.descriptor? ref = s.dist.descriptor? ref

/-- Masks of rank `rank`, as VCPU `v` enables and disables their lines. -/
structure ServesByRank (s : Machine σ) (v : Nat) (mask : Word) (rank : Nat) : Prop where
  /-- A rank whose lines have 32-bit numbers is served exactly. -/
  exact : rank < rankPeriod →
    s.Serves v mask rank (enableLine v) true (s.enableLines v mask rank) ∧
      s.Serves v mask rank (disableLine (fun _ => []) v) false (s.disableLines v mask rank)
  /-- If it is not configured, nothing happens. -/
  absent : rank < rankPeriod → s.dist.sharedRanks.size < rank →
    s.enableLines v mask rank = (.ok (), s) ∧ s.disableLines v mask rank = (.ok (), s)
  /-- Another rank is served instead where the line numbers begin again, -/
  again : rankPeriod ≤ rank → rank < rankLimit →
    s.enableLines v mask rank = s.enableLines v mask (rank % rankPeriod) ∧
      s.disableLines v mask rank = s.disableLines v mask (rank % rankPeriod)
  /-- and where they overflow, the first line is a fault. -/
  overflow : rankLimit ≤ rank → mask ≠ 0 →
    s.enableLines v mask rank = (.error (.fault .arithmeticOverflow), s) ∧
      s.disableLines v mask rank = (.error (.fault .arithmeticOverflow), s)
  /-- No lines are no lines in any rank. -/
  empty : mask = 0 →
    s.enableLines v mask rank = (.ok (), s) ∧ s.disableLines v mask rank = (.ok (), s)

section OneRank

variable {s : Machine σ} {v rank : Nat} {mask : Word}

omit [Host σ] in
/-- Lines without descriptors can be left out of a stretch of lines. -/
theorem foldl_filter_lineRef? {serve : Machine σ → Nat → Machine σ} {P : Machine σ → Prop}
    (idle : ∀ m line, m.dist.lineRef? v line = none → serve m line = m)
    (keeps : ∀ m line, P m → P (serve m line) ∧
      ∀ other, (serve m line).dist.lineRef? v other = m.dist.lineRef? v other)
    (lines : List Nat) (m : Machine σ) (start : P m) :
    lines.foldl serve m =
      (lines.filter fun line => (m.dist.lineRef? v line).isSome).foldl serve m := by
  induction lines generalizing m with
  | nil => rfl
  | cons line rest ih =>
      by_cases there : (m.dist.lineRef? v line).isSome = true
      · obtain ⟨next, same⟩ := keeps m line start
        rw [List.filter_cons, if_pos there, List.foldl_cons, List.foldl_cons, ih _ next]
        simp only [same]
      · have absent : m.dist.lineRef? v line = none := by simpa using there
        rw [List.filter_cons, if_neg there, List.foldl_cons, idle m line absent, ih m start]

omit [Host σ] in
/-- A mask is served if its lines are, by acts of a kind `K` on the lines it names. -/
theorem Serves.of_steps {K : (LineRef → Prop) → Act → Prop} {serve : Machine σ → Nat → Machine σ}
    {enabled : Bool} {outcome : Result Unit × Machine σ}
    (fixed : ∀ S a, K S a → match a with | .allocate .. | .release _ => False | _ => True)
    (spares : ∀ {S a ref}, K S a → ¬ S ref → ∀ d : Distributor,
      (a.apply d).descriptor? ref = d.descriptor? ref)
    (idle : ∀ m line, m.dist.lineRef? v line = none → serve m line = m)
    (one : ∀ m line, (m.dist.vcpu? v).isSome = true →
      Steps (K (LineRef.Named v [line])) m (serve m line))
    (flags : ∀ m line ref, (m.dist.vcpu? v).isSome = true → (serve m line).dist.flag? ref =
      if ref.Named v [line] then (m.dist.flag? ref).map (fun _ => enabled) else m.dist.flag? ref)
    (present : (s.dist.vcpu? v).isSome = true) (inside : rank < rankPeriod)
    (done : outcome = (.ok (), (linesAt rank mask).foldl serve s))
    (all : Steps (K (LineRef.Masked v mask rank)) s outcome.2) :
    s.Serves v mask rank serve enabled outcome := by
  have still : ∀ m line, (m.dist.vcpu? v).isSome = true →
      ((serve m line).dist.vcpu? v).isSome = true :=
    fun m line alive => present_of_steps (fixed _) (one m line alive) alive
  refine ⟨?_, fun {ref} selected => ?_, fun {ref} other => ?_⟩
  · rw [done, foldl_filter_lineRef? (P := fun m => (m.dist.vcpu? v).isSome = true) idle
      (fun m line alive => ⟨still m line alive, fun other => ?_⟩) _ s present]
    exact Distributor.lineRef?_of_shape (one m line alive).shape
      (vcpu?_isSome_of_steps (fixed _) (one m line alive) v) other
  · have named : ref.Named v (linesAt rank mask) := LineRef.selected_iff_named.2 selected
    rw [done, flag?_foldl (P := fun m => (m.dist.vcpu? v).isSome = true) still
      (fun m line alive => flags m line ref alive) _ s present, if_pos named]
  · refine all.descriptor?_kept fun a kind => spares kind fun masked => other ?_
    exact (LineRef.masked_iff_selected inside).1 masked

theorem serves_enableLines (present : (s.dist.vcpu? v).isSome = true)
    (inside : rank < rankPeriod) :
    s.Serves v mask rank (enableLine v) true (s.enableLines v mask rank) := by
  refine .of_steps (K := Act.Enables) (fun S a kind => by cases a <;> trivial)
    (fun kind outside d => kind.descriptor?_apply outside) (fun m line => enableLine_of_none)
    (fun m line => steps_enableLine m line) (fun m line ref alive => flag?_enableLine m line alive ref)
    present inside (enableLines_of_ok present (maskedLines_of_lt inside mask)) ?_
  rw [enableLines_of_present present]
  exact steps_enableMask s present

theorem serves_disableLines (present : (s.dist.vcpu? v).isSome = true)
    (inside : rank < rankPeriod) :
    s.Serves v mask rank (disableLine (fun _ => []) v) false (s.disableLines v mask rank) := by
  refine .of_steps (K := Act.Disables) (fun S a kind => by cases a <;> trivial)
    (fun kind outside d => kind.descriptor?_apply outside)
    (fun m line absent => disableLine_of_none absent _)
    (fun m line _ => steps_disableLine m line) (fun m line ref _ => flag?_disableLine m line ref)
    present inside (disableLines_of_ok present (maskedLines_of_lt inside mask)) ?_
  rw [disableLines_of_present present]
  exact steps_disableMask s

omit [Host σ] in
/-- No line of a rank beyond the last one has a descriptor. -/
theorem absent_of_mem_linesAt (few : s.dist.sharedLines.size ≤ linesPerRank * s.dist.sharedRanks.size)
    (beyond : s.dist.sharedRanks.size < rank) :
    ∀ line ∈ linesAt rank mask, s.dist.lineRef? v line = none := by
  intro line member
  obtain ⟨bit, -, rfl⟩ := List.mem_map.1 member
  simp only [linesPerRank] at few ⊢
  rw [Distributor.lineRef?, dif_neg (by omega), if_neg (by simp only [linesPerRank]; omega)]

theorem servesByRank_of_present
    (few : s.dist.sharedLines.size ≤ linesPerRank * s.dist.sharedRanks.size)
    (present : (s.dist.vcpu? v).isSome = true) (mask : Word) (rank : Nat) :
    s.ServesByRank v mask rank := by
  constructor
  · exact fun inside => ⟨serves_enableLines present inside, serves_disableLines present inside⟩
  · intro inside beyond
    have nothing : (linesAt rank mask).filter (fun line => (s.dist.lineRef? v line).isSome) = [] :=
      List.filter_eq_nil_iff.2 fun line member => by
        rw [absent_of_mem_linesAt few beyond line member]
        exact Bool.false_ne_true
    rw [(serves_enableLines present inside).served, (serves_disableLines present inside).served,
      nothing]
    exact ⟨rfl, rfl⟩
  · intro _ inside
    rw [enableLines_of_present present, enableLines_of_present present,
      disableLines_of_present present, disableLines_of_present present, enableMask, enableMask,
      disableMask, disableMask, ← maskedLines_mod inside]
    exact ⟨rfl, rfl⟩
  · intro beyond some
    rw [enableLines_of_present present, disableLines_of_present present, enableMask, disableMask,
      maskedLines_of_limit_le beyond some]
    exact ⟨rfl, rfl⟩
  · rintro rfl
    rw [enableLines_of_ok present (maskedLines_zero rank),
      disableLines_of_ok present (maskedLines_zero rank)]
    exact ⟨rfl, rfl⟩

end OneRank

/-- After every history, enabling and disabling lines is exact in the ranks whose lines have
32-bit numbers. It does nothing in those that are not configured, and goes to another rank or
fails beyond them. -/
theorem served_by_rank_run {config : Config} {host : σ} {m : Machine σ}
    (started : Machine.start config host = .ok m) (operations : List Operation) {v : Nat}
    (present : ((m.run operations).dist.vcpu? v).isSome = true) (mask : Word) (rank : Nat) :
    (m.run operations).ServesByRank v mask rank := by
  refine servesByRank_of_present ?_ present mask rank
  have shape := shape_run started operations
  simp only [Distributor.shape, Prod.mk.injEq] at shape
  rw [shape.2.1, shape.2.2.1]
  simp only [Config.sharedRanks, linesPerRank]
  omega

/-- Rank 2 has lines 64 to 69 only, rank 3 has none, and the index of the last case is as far
beyond rank 1 as a rank can be. -/
theorem served_by_rank_run_partial_rank :
    let m : Machine SteadyHost := .fresh { vcpus := 1, spis := 38 } { up := [0] }
    let s := m.run [.initVcpu 0, .inject 0 65]
    s.ServesByRank 0 0xc2 2 ∧ s.ServesByRank 0 0xc2 3 ∧
      s.ServesByRank 0 0xc2 (rankLimit - rankPeriod + 1) ∧
      (s.enableLines 0 0xc2 2).2.calls = s.calls ++ [.raise 0 65 0] ∧
      (s.enableLines 0 0xc2 3).2 = s := by
  intro m s
  have started : Machine.start { vcpus := 1, spis := 38 } ({ up := [0] } : SteadyHost) = .ok m :=
    rfl
  have present : (s.dist.vcpu? 0).isSome = true := by decide +kernel
  have other := served_by_rank_run started _ present 0xc2 3
  exact ⟨served_by_rank_run started _ present _ _, other, served_by_rank_run started _ present _ _,
    by decide +kernel, congrArg (·.2) (other.absent (by decide) (by decide +kernel)).1⟩

/-- A rank index far beyond the only shared rank enables the first line of that rank, though
it names nothing, and one from `rankLimit` on is a fault. -/
theorem rank_beyond_is_served :
    let m : Machine SteadyHost := .fresh (.forHardware 1 64) { up := [0] }
    let s := m.run [.initVcpu 0]
    (s.dist.sharedRanks.size = 1 ∧ ¬ (LineRef.shared 0).Selected 0 (rankPeriod + 1) 1 ∧
        s.dist.flag? (.shared 0) = some false ∧
        (s.enableLines 0 1 (rankPeriod + 1)).2.dist.flag? (.shared 0) = some true) ∧
      ¬ s.Serves 0 1 (rankPeriod + 1) (enableLine 0) true (s.enableLines 0 1 (rankPeriod + 1)) ∧
      (s.enableLines 0 1 rankLimit).1 = .error (.fault .arithmeticOverflow) := by
  intro m s
  have enabled : (s.enableLines 0 1 (rankPeriod + 1)).2.dist.flag? (.shared 0) = some true := by
    decide +kernel
  have before : s.dist.flag? (.shared 0) = some false := by decide +kernel
  have outside : ¬ (LineRef.shared 0).Selected 0 (rankPeriod + 1) 1 := by decide +kernel
  refine ⟨⟨by decide +kernel, outside, before, enabled⟩, ?_, by decide +kernel⟩
  intro serves
  have kept := congrArg (Option.map (·.status.enabled)) (serves.others outside)
  exact absurd (before.symm.trans (kept.symm.trans enabled)) (by decide)

end Machine

end VirtualGic
