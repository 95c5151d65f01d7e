/-
# Proofs.Offline — what an offline VCPU gets

A VCPU may be taken down while lines are inflight on it. From then on no line is queued on it:
the host is asked before a free line is claimed, and software interrupts and the event-channel
line are not even raised again on a VCPU that is down. `spares_offline_run` says so for every
operation after every history.

An injection looks first whether its line is inflight. If so, it raises the line again on the
VCPU that has it, without asking the host about that one, and wakes it
(`raised_again_offline`). A shared line that is raised without a VCPU has its targets asked
about before, and that makes no difference then.
-/
import VirtualGic.Proofs.Targeting
import VirtualGic.Proofs.Wakes

namespace VirtualGic

set_option autoImplicit false

/-- What the operations on a machine deliver to VCPUs that are online, and what to others. -/
structure Machine.SparesOffline {σ : Type} [Host σ] (config : Config) (m : Machine σ) : Prop where
  /-- Whatever is no injection delivers to VCPUs that the host has just called online. -/
  vouched : ∀ operation, operation.isInjection = false → ∃ made,
    Machine.Deliveries Machine.Vouched (Call.Between (operation.shows config)) m made
      (m.perform operation).2 ∧ ∀ d ∈ made, operation.MayDeliver config d.ref
  /-- An injection queues its line on a VCPU that the host calls online, or raises it again
  where it is. -/
  injected : ∀ operation, operation.isInjection = true → ∃ made,
    Machine.Deliveries Machine.Delivery (Call.Between false) m made (m.perform operation).2 ∧
      ∀ d ∈ made, operation.MayDeliver config d.ref
  /-- A line that is held is raised again on its holder, whatever the host says of that. -/
  again : ∀ v line ref holder, m.dist.resolve v line = .ok ref →
    (m.dist.descriptor ref).owner = some holder →
    ∃ cpu?, m.Delivery ⟨ref, holder, cpu?⟩ (m.perform (.inject v line)).2
  /-- So is a shared line that is raised without a VCPU, whatever is said of its targets. -/
  againShared : ∀ ref holder, linesPerRank ≤ ref.number → (m.dist.vcpu? 0).isSome = true →
    (m.dist.descriptor ref).owner = some holder →
    ∃ asked cpu?, asked.dist = m.dist ∧ Machine.Makes (fun _ => False) m asked ∧
      asked.Delivery ⟨ref, holder, cpu?⟩ (m.perform (.injectSpi ref.number)).2
  /-- A line that is on no list and is raised on an offline VCPU leaves everything as it is. -/
  unheard : ∀ v line, (m.online v).1 = false →
    (∀ ref : LineRef, ref.Named v [line] → (m.dist.descriptor ref).owner = none) →
    (m.perform (.inject v line)).2.dist = m.dist ∧
      (m.perform (.inject v line)).2.calls = m.calls

namespace Machine

variable {σ : Type} [Host σ]

theorem inject_of_offline {m : Machine σ} {v line : Nat} (down : (m.online v).1 = false)
    (free : ∀ ref : LineRef, ref.Named v [line] → (m.dist.descriptor ref).owner = none) :
    (m.inject v line).2.dist = m.dist ∧ (m.inject v line).2.calls = m.calls := by
  unfold inject injectAmid
  split
  · exact ⟨rfl, rfl⟩
  · rename_i ref resolved
    exact deliver_of_offline (free ref (.of_resolve resolved)) down

/-- Whoever a shared line is raised on, it is delivered to the VCPU that holds it. -/
theorem delivery_injectSpi_of_held {m : Machine σ} (consistent : Consistent m.dist)
    (ranked : m.dist.Ranked) {ref : LineRef} {holder : Nat} (high : linesPerRank ≤ ref.number)
    (zero : (m.dist.vcpu? 0).isSome = true) (owned : (m.dist.descriptor ref).owner = some holder) :
    ∃ asked cpu?, asked.dist = m.dist ∧ Makes (fun _ => False) m asked ∧
      asked.Delivery ⟨ref, holder, cpu?⟩ (m.injectSpi ref.number).2 := by
  have there : (m.dist.descriptor? ref).isSome = true :=
    Option.isSome_iff_exists.2 ⟨_, Distributor.descriptor?_of_owner owned⟩
  obtain ⟨rank, found, -⟩ := Distributor.rank?_of_line ranked (ref.seenBy_shared high 0) there
  have raised := injectSpi_of_ranked high zero found
  have present := present_of_found zero (m.dist.targets ref.number)
  have asked : Makes (fun _ => False) m (m.firstOnline (m.dist.targets ref.number)).2 :=
    makes_firstOnline m _
  have same := dist_firstOnline m (m.dist.targets ref.number)
  rw [raised]
  generalize m.firstOnline (m.dist.targets ref.number) = found at present asked same ⊢
  rw [← same] at consistent there owned
  have resolved := Distributor.resolve_of_seenBy present (ref.seenBy_shared high _) there
  obtain ⟨cpu?, one⟩ := delivery_inject consistent resolved (by simp [owned])
  rw [owned] at one
  exact ⟨found.2, cpu?, same, asked, one⟩

/-- After every history, no operation queues a line on an offline VCPU, and none but an
injection raises a line again on one. -/
theorem spares_offline_run {config : Config} {host : σ} {m : Machine σ}
    (started : Machine.start config host = .ok m) (operations : List Operation) :
    (m.run operations).SparesOffline config := by
  have settings : (m.run operations).dist.config = config :=
    congrArg (·.1) (shape_run started operations)
  have consistent := consistent_run started operations
  have ranked := ranked_run started operations
  generalize m.run operations = s at settings consistent ranked ⊢
  refine ⟨fun operation plain => ?_, fun operation injects => ?_,
    fun v line ref holder resolved owned => ?_, fun ref holder high zero owned => ?_,
    fun v line down free => inject_of_offline down free⟩
  · obtain ⟨made, course, -, lines⟩ := settings ▸ delivering_perform consistent operation
    exact ⟨made, course.refine (fun _ sort => sort)
      fun _ _ _ one => vouched_of_stage plain one, lines⟩
  · obtain ⟨made, course, -, lines⟩ := settings ▸ delivering_perform consistent operation
    cases operation with
    | inject | injectSpi => exact ⟨made, course, lines⟩
    | _ => cases injects
  · obtain ⟨cpu?, one⟩ := delivery_inject consistent resolved (by simp [owned])
    rw [owned] at one
    exact ⟨cpu?, one⟩
  · exact delivery_injectSpi_of_held consistent ranked high zero owned

/-- VCPU 1 is down. A line raised on it is dropped, and a software interrupt to both VCPUs
wakes VCPU 0 alone. -/
theorem spares_offline_run_down :
    let s : Machine SteadyHost := (Machine.fresh (.forGuest 2) { up := [0] }).run
      [.initVcpu 0, .initVcpu 1]
    let sent := (s.perform (.write 0 0xf00 .word 0x30003)).2
    s.SparesOffline (.forGuest 2) ∧
      (s.perform (.inject 1 3)).2.dist = s.dist ∧ (s.perform (.inject 1 3)).2.calls = s.calls ∧
      sent.calls = s.calls ++ [.unblock 0] ∧ sent.dist.vcpu? 1 = s.dist.vcpu? 1 := by
  intro s sent
  have started : Machine.start (.forGuest 2) ({ up := [0] } : SteadyHost) =
      .ok (.fresh (.forGuest 2) { up := [0] }) := rfl
  have spares := spares_offline_run started [.initVcpu 0, .initVcpu 1]
  have free : ∀ ref : LineRef, ref.Named 1 [3] → (s.dist.descriptor ref).owner = none := by
    rintro ref ⟨seen, number⟩
    obtain rfl : ref = .banked 1 3 := by
      cases ref with
      | banked u line =>
          obtain rfl : u = 1 := seen
          have : line.val = 3 := List.mem_singleton.1 number
          exact congrArg _ (Fin.ext this)
      | shared index =>
          have : linesPerRank + index = 3 := List.mem_singleton.1 number
          simp only [linesPerRank] at this
          omega
    decide +kernel
  obtain ⟨dist, calls⟩ := spares.unheard 1 3 (by decide +kernel) free
  exact ⟨spares, dist, calls, by decide +kernel, by decide +kernel⟩

end Machine

/-- A scheduler that calls VCPUs online a few times, and then offline for good. -/
structure ClosingHost where
  left : Nat
deriving DecidableEq

instance : Host ClosingHost where
  online host _ := (decide (0 < host.left), ⟨host.left - 1⟩)
  running host _ := (none, host)
  currentCpu host := (0, host)
  upcallPending host _ := (false, host)
  react host _ := host

/-- Line 3 is raised on VCPU 0 and put into a list register, and VCPU 0 goes down. Raising
the line once more marks it and wakes VCPU 0, although no VCPU is online before or after. -/
theorem raised_again_offline :
    let s : Machine ClosingHost := (Machine.fresh (.forGuest 1) { left := 1 }).run
      [.initVcpu 0, .inject 0 3, .setVisible 0 3 true]
    let after := (s.perform (.inject 0 3)).2
    Machine.start (.forGuest 1) (ClosingHost.mk 1) = .ok (.fresh (.forGuest 1) { left := 1 }) ∧
      (∀ v, (s.online v).1 = false ∧ (after.online v).1 = false) ∧
      (s.dist.descriptor (.banked 0 3)).owner = some 0 ∧
      (s.dist.descriptor (.banked 0 3)).status.queued = false ∧
      (after.dist.descriptor (.banked 0 3)).status.queued = true ∧
      after.calls = s.calls ++ [.raiseInflight 0 3, .unblock 0] := by
  intro s after
  have closed : s.host = ⟨0⟩ ∧ after.host = ⟨0⟩ := by decide +kernel
  refine ⟨rfl, fun v => ?_, by decide +kernel, by decide +kernel, by decide +kernel,
    by decide +kernel⟩
  simp only [Machine.online, Host.online, closed]
  decide

end VirtualGic
