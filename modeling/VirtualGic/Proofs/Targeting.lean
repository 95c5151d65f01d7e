/-
# Proofs.Targeting — the VCPU that a shared line is raised on

A shared line that is raised without a VCPU goes to one that its target byte names. The host
is asked about those that have state, in ascending order, until one is online. That VCPU gets
the line (`finds_target_run`), and if none is online VCPU 0 does.

The register with the target byte is looked up as VCPU 0 sees it, although all VCPUs see the
same one. So nobody gets the line while VCPU 0 has no state (`stranded_without_first`).
-/
import VirtualGic.Proofs.Addressing
import VirtualGic.Proofs.Faultless
import VirtualGic.Proofs.Steady
import Mathlib.Data.List.Sort

namespace VirtualGic

set_option autoImplicit false

/-- Whether `line` is one of the shared lines. -/
def Config.Shares (config : Config) (line : Nat) : Prop :=
  linesPerRank ≤ line ∧ line < linesPerRank + config.spis

instance (config : Config) (line : Nat) : Decidable (config.Shares line) :=
  inferInstanceAs (Decidable (_ ∧ _))

namespace Distributor

/-- The target byte of a shared line. -/
def targetByte (d : Distributor) (line : Nat) : Byte :=
  ((d.sharedRanks[rankOfLine line - 1]?).bind (·.target? (line % linesPerRank))).getD 0

/-- The VCPUs that have state and that the target byte of `line` names, in ascending order. -/
def targets (d : Distributor) (line : Nat) : List Nat :=
  d.present.filter (d.targetByte line).getLsbD

theorem filter_setBits (d : Distributor) (line : Nat) :
    (SetBits.mk ((d.targetByte line).setWidth 32)).toList.filter (fun v => (d.vcpu? v).isSome) =
      d.targets line := by
  rw [SetBits.toList_eq_filter]
  refine List.Pairwise.eq_of_mem_iff ((List.pairwise_lt_range.filter _).filter _)
    ((List.pairwise_lt_range.filter _).filter _) fun v => ?_
  rw [← SetBits.toList_eq_filter, List.mem_filter, SetBits.mem_toList_iff, targets,
    List.mem_filter, mem_present, BitVec.getLsbD_setWidth, and_comm, Bool.and_eq_true,
    decide_eq_true_iff]
  refine and_congr_right fun _ => and_iff_right_of_imp fun named => ?_
  exact Nat.lt_of_lt_of_le (BitVec.lt_of_getLsbD named) (by decide)

theorem present_of_mem_targets {d : Distributor} {line v : Nat} (member : v ∈ d.targets line) :
    (d.vcpu? v).isSome = true :=
  mem_present.1 (List.mem_filter.1 member).1

theorem resolve_of_shares {d : Distributor} {line : Nat} (high : linesPerRank ≤ line)
    (inside : line < linesPerRank + d.sharedLines.size) {v : Nat}
    (present : (d.vcpu? v).isSome = true) :
    d.resolve v line = .ok (.shared (line - linesPerRank)) := by
  have number : (LineRef.shared (line - linesPerRank)).number = line :=
    Nat.add_sub_of_le high
  have there : (d.descriptor? (.shared (line - linesPerRank))).isSome = true := by
    rw [descriptor?, Array.getElem?_eq_getElem (by omega)]
    rfl
  have resolved := resolve_of_seenBy present (LineRef.seenBy_shared (number.symm ▸ high) v) there
  rwa [number] at resolved

end Distributor

namespace Machine

variable {σ : Type} [Host σ]

/-- The shared line `line` is raised on the first of its targets that is online. -/
structure FindsTarget (s : Machine σ) (line : Nat) : Prop where
  /-- Raising the line is accepted. -/
  accepted : (s.injectSpi line).1 = .ok ()
  /-- The targets `before` are asked about and are not online, and `target` is. -/
  first : ∀ {before after : List Nat} {target : Nat},
    s.dist.targets line = before ++ target :: after → (s.onlineAmong before).1 = [] →
      ((s.onlineAmong before).2.online target).1 = true →
        s.injectSpi line = ((s.onlineAmong before).2.online target).2.inject target line
  /-- VCPU 0 stands in when none of them is online. -/
  fallback : (s.onlineAmong (s.dist.targets line)).1 = [] →
    s.injectSpi line = (s.onlineAmong (s.dist.targets line)).2.inject 0 line
  /-- A host that does not change its mind need not have been asked. -/
  unasked : ∀ {up : Nat → Bool} {like : σ → σ → Prop}, Host.Steady up like →
    like s.host s.host →
      let raised := s.inject (((s.dist.targets line).find? up).getD 0) line
      (s.injectSpi line).1 = raised.1 ∧ (s.injectSpi line).2.dist = raised.2.dist ∧
        (s.injectSpi line).2.calls = raised.2.calls

/-! ## The first that is online -/

variable {s : Machine σ} {up : Nat → Bool} {like : σ → σ → Prop} {a b : Machine σ}

/-- Nobody is asked about a VCPU without state. -/
theorem firstOnline_filter (m : Machine σ) (vs : List Nat) :
    m.firstOnline vs = m.firstOnline (vs.filter fun v => (m.dist.vcpu? v).isSome) := by
  induction vs generalizing m with
  | nil => rfl
  | cons v rest ih =>
      rw [List.filter_cons]
      cases found : m.dist.vcpu? v with
      | none =>
          simp only [firstOnline, found, Option.isSome_none, Bool.false_eq_true, if_false]
          exact ih m
      | some state =>
          simp only [firstOnline, found, Option.isSome_some, if_true]
          have others : (m.online v).2.firstOnline rest =
              (m.online v).2.firstOnline (rest.filter fun v => (m.dist.vcpu? v).isSome) :=
            ih (m.online v).2
          rw [others]

theorem firstOnline_append {m : Machine σ} {before : List Nat} (after : List Nat)
    (present : ∀ v ∈ before, (m.dist.vcpu? v).isSome = true)
    (offline : (m.onlineAmong before).1 = []) :
    m.firstOnline (before ++ after) = (m.onlineAmong before).2.firstOnline after := by
  induction before generalizing m with
  | nil => rfl
  | cons v rest ih =>
      obtain ⟨state, found⟩ := Option.isSome_iff_exists.1 (present v List.mem_cons_self)
      have down : (m.online v).1 = false := by
        cases answer : (m.online v).1 with
        | false => rfl
        | true => simp [onlineAmong, answer] at offline
      simp only [onlineAmong, down, Bool.false_eq_true, if_false] at offline ⊢
      rw [List.cons_append]
      simp only [firstOnline, found, down, Bool.false_eq_true, if_false]
      exact ih (m := (m.online v).2) (fun w member => present w (List.mem_cons_of_mem v member))
        offline

theorem firstOnline_akin (steady : Host.Steady up like) (akin : Akin like a b) {vs : List Nat}
    (present : ∀ v ∈ vs, (a.dist.vcpu? v).isSome = true) :
    (a.firstOnline vs).1 = vs.find? up ∧ Akin like (a.firstOnline vs).2 b := by
  induction vs generalizing a with
  | nil => exact ⟨rfl, akin⟩
  | cons v rest ih =>
      obtain ⟨state, found⟩ := Option.isSome_iff_exists.1 (present v List.mem_cons_self)
      obtain ⟨answer, asked⟩ := akin.online steady v
      obtain ⟨others, done⟩ := ih asked fun w member => present w (List.mem_cons_of_mem v member)
      simp only [firstOnline, found, answer, List.find?_cons]
      cases up v with
      | true => exact ⟨rfl, asked⟩
      | false => exact ⟨others, done⟩

/-! ## The register that names the targets -/

/-- A line in a rank goes to the first of its targets that is online, or to VCPU 0. -/
theorem injectSpi_of_ranked {line : Nat} (high : linesPerRank ≤ line)
    (zero : (s.dist.vcpu? 0).isSome = true) {rank : Rank}
    (found : s.dist.rank? 0 (rankOfLine line) = some rank) :
    s.injectSpi line = (s.firstOnline (s.dist.targets line)).2.inject
      ((s.firstOnline (s.dist.targets line)).1.getD 0) line := by
  obtain ⟨mask, target⟩ := rank.exists_target (Nat.mod_lt line (by decide))
  have byte : s.dist.targetByte line = mask := by
    obtain ⟨index, place⟩ : ∃ index, rankOfLine line = index + 1 :=
      Nat.exists_eq_succ_of_ne_zero (Nat.ne_of_gt (Nat.div_pos high (by decide)))
    rw [place] at found
    have shared : s.dist.sharedRanks[index]? = some rank := found
    rw [Distributor.targetByte, place, Nat.add_sub_cancel, shared, Option.bind_some, target,
      Option.getD_some]
  rw [injectSpi_of_target high zero found target, firstOnline_filter, ← byte,
    Distributor.filter_setBits]

/-- Whoever is found has state, and so has VCPU 0. -/
theorem present_of_found (zero : (s.dist.vcpu? 0).isSome = true) (vs : List Nat) :
    ((s.firstOnline vs).2.dist.vcpu? ((s.firstOnline vs).1.getD 0)).isSome = true := by
  rw [dist_firstOnline]
  cases found : (s.firstOnline vs).1 with
  | none => exact zero
  | some target => exact (mem_of_firstOnline found).2

theorem FindsTarget.of_shares {line : Nat} (ranked : s.dist.Ranked) (high : linesPerRank ≤ line)
    (inside : line < linesPerRank + s.dist.sharedLines.size)
    (zero : (s.dist.vcpu? 0).isSome = true) : s.FindsTarget line := by
  have resolved := Distributor.resolve_of_shares high inside zero
  obtain ⟨-, number, seen, there⟩ := Distributor.found_of_resolve resolved
  obtain ⟨rank, found, -⟩ := Distributor.rank?_of_line ranked seen there
  rw [number] at found
  have raised := injectSpi_of_ranked high zero found
  have present : ∀ v ∈ s.dist.targets line, (s.dist.vcpu? v).isSome = true :=
    fun v member => Distributor.present_of_mem_targets member
  refine ⟨?_, ?_, ?_, ?_⟩
  · have found := present_of_found zero (s.dist.targets line)
    rw [dist_firstOnline] at found
    rw [raised, inject_of_resolve]
    rw [dist_firstOnline]
    exact Distributor.resolve_of_shares high inside found
  · intro before after target split offline online
    rw [raised, split, firstOnline_append _ ?_ offline]
    · have dist := (steps_onlineAmong s before).dist_of_idles
      obtain ⟨state, there⟩ := Option.isSome_iff_exists.1
        (present target (split ▸ List.mem_append_right before List.mem_cons_self))
      simp only [firstOnline, dist, there, online, if_true, Option.getD_some]
    · exact fun v member => present v (split ▸ List.mem_append_left _ member)
  · intro offline
    have asked := firstOnline_append [] present offline
    rw [List.append_nil] at asked
    rw [raised, asked]
    rfl
  · intro up like steady akin
    obtain ⟨choice, asked⟩ := firstOnline_akin (b := s) steady ⟨rfl, rfl, akin⟩ present
    obtain ⟨answer, same⟩ := asked.inject steady (((s.dist.targets line).find? up).getD 0) line
    rw [raised, choice]
    exact ⟨answer, same.dist, same.calls⟩

theorem inject_of_undescribed {v line : Nat} (high : linesPerRank ≤ line)
    (beyond : linesPerRank + s.dist.sharedLines.size ≤ line)
    (present : (s.dist.vcpu? v).isSome = true) :
    s.inject v line = (.error (.refused (.invalidLine line)), s) := by
  obtain ⟨state, there⟩ := Option.isSome_iff_exists.1 present
  have missing : s.dist.lineRef? v line = none := by
    unfold Distributor.lineRef?
    rw [dif_neg (show ¬ line < 32 from Nat.not_lt.2 high), if_neg (by omega)]
  unfold inject injectAmid Distributor.resolve
  simp only [there, missing]

/-- A number that is no shared line is refused. It may still have a rank, the last one, and then
the host is asked about targets before. -/
theorem injectSpi_refused {line : Nat} (zero : (s.dist.vcpu? 0).isSome = true)
    (outside : ¬ (linesPerRank ≤ line ∧ line < linesPerRank + s.dist.sharedLines.size)) :
    ∃ s' : Machine σ, s.injectSpi line = (.error (.refused (.invalidLine line)), s') ∧
      s'.dist = s.dist ∧ s'.calls = s.calls := by
  by_cases high : linesPerRank ≤ line
  · cases found : s.dist.rank? 0 (rankOfLine line) with
    | none =>
        obtain ⟨state, there⟩ := Option.isSome_iff_exists.1 zero
        refine ⟨s, ?_, rfl, rfl⟩
        unfold injectSpi
        rw [if_neg (Nat.not_lt.2 high), Distributor.requireVcpu_eq_ok_iff.2 there]
        simp only [found]
    | some rank =>
        have dist := dist_firstOnline s (s.dist.targets line)
        refine ⟨_, ?_, dist, calls_firstOnline s (s.dist.targets line)⟩
        rw [injectSpi_of_ranked high zero found]
        exact inject_of_undescribed high (by rw [dist]; omega) (present_of_found zero _)
  · refine ⟨s, ?_, rfl, rfl⟩
    unfold injectSpi
    rw [if_pos (Nat.lt_of_not_le high)]

/-- After every history in which VCPU 0 has state, a shared line finds its target, and any other
number is refused. While VCPU 0 has none, every number is refused. -/
theorem finds_target_run {config : Config} {host : σ} {m : Machine σ}
    (started : Machine.start config host = .ok m) (operations : List Operation) (line : Nat) :
    let s := m.run operations
    ((s.dist.vcpu? 0).isSome = true →
      (config.Shares line → s.FindsTarget line) ∧
        (¬ config.Shares line →
          (s.injectSpi line).1 = .error (.refused (.invalidLine line)) ∧
            (s.injectSpi line).2.dist = s.dist ∧ (s.injectSpi line).2.calls = s.calls)) ∧
      (s.dist.vcpu? 0 = none → s.injectSpi line =
        (.error (.refused (if line < linesPerRank then .invalidLine line else .invalidVcpu 0)),
          s)) := by
  intro s
  have shape := shape_run started operations
  simp only [Distributor.shape, Prod.mk.injEq] at shape
  obtain ⟨-, -, lines, -⟩ := shape
  have shares : config.Shares line ↔
      linesPerRank ≤ line ∧ line < linesPerRank + s.dist.sharedLines.size := by
    rw [Config.Shares, lines]
  refine ⟨fun zero => ⟨fun inside => ?_, fun outside => ?_⟩, fun absent => ?_⟩
  · obtain ⟨high, inside⟩ := shares.1 inside
    exact .of_shares (ranked_run started operations) high inside zero
  · obtain ⟨s', refused, dist, calls⟩ :=
      injectSpi_refused zero fun inside => outside (shares.2 inside)
    rw [refused]
    exact ⟨rfl, dist, calls⟩
  · unfold injectSpi
    split
    · rfl
    · unfold Distributor.requireVcpu
      rw [absent]

/-- Line 33 names VCPUs 1 and 2, of which VCPU 1 is offline. -/
theorem finds_target_run_second :
    let m : Machine SteadyHost := .fresh (.forHardware 3 70) { up := [0, 2] }
    let s := m.run [.initVcpu 0, .initVcpu 1, .initVcpu 2, .write 0 0x821 .byte 6]
    s.dist.targets 33 = [1, 2] ∧ s.FindsTarget 33 ∧
      (s.injectSpi 33).2.dist.onList 2 33 = true ∧
      (s.injectSpi 70).1 = .error (.refused (.invalidLine 70)) := by
  intro m s
  have started : Machine.start (.forHardware 3 70) ({ up := [0, 2] } : SteadyHost) = .ok m := rfl
  have zero : (s.dist.vcpu? 0).isSome = true := by decide +kernel
  have inside := (finds_target_run started _ 33).1 zero
  have outside := (finds_target_run started _ 70).1 zero
  exact ⟨by decide +kernel, inside.1 (by decide), by decide +kernel,
    (outside.2 (by decide)).1⟩

/-- VCPU 1 is online and the only target of line 32, and the line can be raised on it. It is
not found after VCPU 0 has been freed. -/
theorem stranded_without_first :
    let m : Machine SteadyHost := .fresh (.forHardware 2 64) { up := [0, 1] }
    let s := m.run [.initVcpu 0, .initVcpu 1, .write 1 0x820 .byte 2, .freeVcpu 0]
    Machine.start (.forHardware 2 64) { up := [0, 1] } = .ok m ∧
      (Config.forHardware 2 64).Shares 32 ∧ s.dist.targets 32 = [1] ∧ (s.online 1).1 = true ∧
      (s.inject 1 32).1 = .ok () ∧ (s.inject 1 32).2.dist.onList 1 32 = true ∧
      (s.injectSpi 32).1 = .error (.refused (.invalidVcpu 0)) ∧
      (s.injectSpi 32).2.dist.onList 1 32 = false := by
  intro m s
  exact ⟨rfl, by decide, by decide +kernel, by decide +kernel, by decide +kernel,
    by decide +kernel, by decide +kernel, by decide +kernel⟩

end Machine

end VirtualGic
