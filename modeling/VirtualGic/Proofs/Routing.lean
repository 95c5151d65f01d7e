/-
# Proofs.Routing — lines routed to physical interrupts

A line that is routed is backed by the interrupt from then on (`Backed`): whichever operation
switches the line, its turn ends with a call about this interrupt and there is no other in it,
and unrouting the line answers the interrupt. `Routed` says so of every state until the line is
routed again, unrouted, or taken away with its VCPU, and that after unrouting nothing is called
for the line any more.

`routed_run` is that after every history. One number stands for no interrupt, and is accepted all
the same: a line that is routed to it is not backed (`unbacked_though_routed`).
-/
import VirtualGic.Proofs.Switching

namespace VirtualGic

set_option autoImplicit false

namespace Machine

variable {σ : Type} [Host σ]

/-- A line that is backed by an interrupt, or by none. -/
structure Backed (s : Machine σ) (ref : LineRef) (backing : Option Nat) : Prop where
  held : s.dist.backing? ref = some backing
  /-- An operation that switches the line tells of what is behind it, in its turn. -/
  turn : ∀ {operation switch}, s.dist.switch? operation = some switch →
    ref.Named switch.vcpu switch.lines → ∃ start before behind u,
      s.Switched operation switch start ∧ switch.lines = before ++ ref.number :: behind ∧
        Turn switch ref backing (before.foldl switch.serve start) u
          (switch.serve (before.foldl switch.serve start) ref.number)
  /-- An operation that switches no line tells of no interrupt. -/
  silent : ∀ {operation}, s.dist.switch? operation = none →
    (s.perform operation).2.masking = s.masking
  /-- The line can be unrouted, and the answer is what was behind it. -/
  answer : ∀ {w}, (s.dist.vcpu? w).isSome = true → ref.SeenBy w →
    (s.perform (.unroutePhysical w ref.number)).1 = .ok (.interrupt backing)

/-- In the state `s`, VCPU `v` routes `line`, which is the line `ref` for it, to `irq`. -/
structure Routed (s : Machine σ) (v line irq : Nat) (ref : LineRef) : Prop where
  accepted : (s.perform (.routePhysical v line irq)).1 = .ok .done
  /-- The line is backed by the interrupt, unless its number stands for none, -/
  backed : ∀ {later}, (∀ operation ∈ later, ¬ operation.Rewires ref) →
    (s.run (.routePhysical v line irq :: later)).Backed ref
      (if irq = Descriptor.noInterrupt then none else some irq)
  /-- until a VCPU that sees it unroutes it. -/
  unbacked : ∀ {later after w}, (∀ operation ∈ later, ¬ operation.Rewires ref) →
    ((s.run (.routePhysical v line irq :: later)).dist.vcpu? w).isSome = true →
    ref.SeenBy w → (∀ operation ∈ after, ¬ operation.Rewires ref) →
    (s.run (.routePhysical v line irq :: later ++ .unroutePhysical w line :: after)).Backed ref none

section Wiring

variable {s : Machine σ} {v : Nat} {ref : LineRef} {backing : Option Nat}

theorem backed_of_consistent (consistent : Consistent s.dist)
    (held : s.dist.backing? ref = some backing) : s.Backed ref backing := by
  obtain ⟨p, found, same⟩ := Option.map_eq_some_iff.1 held
  refine ⟨held, fun switches named => ?_, masking_of_none, fun present seen => ?_⟩
  · obtain ⟨start, switched, ready⟩ := exists_switched consistent switches
    obtain ⟨before, behind, split⟩ := List.append_of_mem named.2
    have still : start.dist.backing? ref = some backing := by
      rw [Distributor.backing?, switched.descriptors]
      exact held
    obtain ⟨u, turn⟩ := exists_turn (ready.foldl before) named.1 (ready.backing? still before)
    exact ⟨start, before, behind, u, switched, split, turn⟩
  · have resolved := Distributor.resolve_of_seenBy present seen (by simp [found])
    show (answer .interrupt (s.unroutePhysical _ ref.number)).1 = _
    rw [unroutePhysical, resolved]
    simp only [answer, Distributor.descriptor_of_eq_some found, same]
    rfl

theorem backing?_routePhysical (present : (s.dist.vcpu? v).isSome = true) (seen : ref.SeenBy v)
    (there : (s.dist.descriptor? ref).isSome = true) (irq : Nat) :
    (s.perform (.routePhysical v ref.number irq)).1 = .ok .done ∧
      (s.perform (.routePhysical v ref.number irq)).2.dist.backing? ref =
        some (if irq = Descriptor.noInterrupt then none else some irq) := by
  obtain ⟨p, found⟩ := Option.isSome_iff_exists.1 there
  have done : s.perform (.routePhysical v ref.number irq) = (.ok .done,
      (s.modify (·.updateLine ref (Descriptor.route irq))).note (.lineRouted ref.number irq)) := by
    show acknowledge (s.routePhysical v ref.number irq) = _
    rw [routePhysical, Distributor.resolve_of_seenBy present seen there]
    rfl
  rw [done]
  refine ⟨rfl, ?_⟩
  rw [dist_note, dist_modify, Distributor.backing?, Distributor.descriptor?_updateLine_self, found]
  rfl

theorem backing?_unroutePhysical (present : (s.dist.vcpu? v).isSome = true)
    (seen : ref.SeenBy v) (there : (s.dist.descriptor? ref).isSome = true) :
    (s.perform (.unroutePhysical v ref.number)).2.dist.backing? ref = some none := by
  obtain ⟨p, found⟩ := Option.isSome_iff_exists.1 there
  show (s.unroutePhysical v ref.number).2.dist.backing? ref = _
  rw [unroutePhysical, Distributor.resolve_of_seenBy present seen there]
  rw [dist_modify, Distributor.backing?, Distributor.descriptor?_updateLine_self, found]
  rfl

theorem routed_of_consistent (consistent : Consistent s.dist)
    (present : (s.dist.vcpu? v).isSome = true) (seen : ref.SeenBy v)
    (there : (s.dist.descriptor? ref).isSome = true) (irq : Nat) :
    s.Routed v ref.number irq ref := by
  obtain ⟨accepted, routed⟩ := backing?_routePhysical present seen there irq
  have held : ∀ {later : List Operation}, (∀ operation ∈ later, ¬ operation.Rewires ref) →
      (s.run (.routePhysical v ref.number irq :: later)).dist.backing? ref =
        some (if irq = Descriptor.noInterrupt then none else some irq) := by
    intro later spares
    rw [run_cons]
    exact backing?_run spares routed
  refine ⟨accepted, fun spares => ?_, fun spares here seen' calm => ?_⟩
  · exact backed_of_consistent (consistent.run _) (held spares)
  · obtain ⟨p, found, -⟩ := Option.map_eq_some_iff.1 (held spares)
    have unrouted := backing?_unroutePhysical here seen' (by rw [found]; rfl)
    refine backed_of_consistent (consistent.run _) ?_
    rw [run_append, run_cons]
    exact backing?_run calm unrouted

end Wiring

/-- After every history, routing a line is accepted, and the line is backed by the interrupt until
it is routed again, unrouted, or released with its VCPU. -/
theorem routed_run {config : Config} {host : σ} {m : Machine σ}
    (started : Machine.start config host = .ok m) (operations : List Operation) {v line : Nat}
    {ref : LineRef} (present : ((m.run operations).dist.vcpu? v).isSome = true)
    (looked : (m.run operations).dist.lineRef? v line = some ref) (irq : Nat) :
    (m.run operations).Routed v line irq ref := by
  obtain ⟨rfl, seen, there⟩ := Distributor.lineRef?_eq_some_iff.1 looked
  exact routed_of_consistent (consistent_run started operations) present seen there irq

/-- VCPU 0 routes line 40 and goes. VCPU 1 enables it and the line beside it, disables it
again while it is inflight, unroutes it, and enables it once more. -/
theorem routed_run_other_vcpu :
    let m : Machine SteadyHost := .fresh (.forHardware 2 64) { up := [0, 1] }
    let s := m.run [.initVcpu 0, .initVcpu 1]
    let t := s.run [.routePhysical 0 40 72, .freeVcpu 0, .write 1 0x104 .word 0x300, .inject 1 40,
      .disableLines 1 0x100 1]
    s.Routed 0 40 72 (.shared 8) ∧
      t.calls = [.clear 0, .enablePhysical 72, .raise 1 40 0, .unblock 1, .remove 1 40,
        .disablePhysical 72] ∧
      (t.perform (.unroutePhysical 1 40)).1 = .ok (.interrupt (some 72)) ∧
      (t.run [.unroutePhysical 1 40, .write 1 0x104 .word 0x100]).masking = t.masking := by
  intro m s t
  have started : Machine.start (.forHardware 2 64) ({ up := [0, 1] } : SteadyHost) = .ok m := rfl
  exact ⟨routed_run started _ (by decide +kernel) (by decide +kernel) _, by decide +kernel,
    by decide +kernel, by decide +kernel⟩

/-- The last 32-bit number is accepted like any other, and stands for no interrupt. -/
theorem unbacked_though_routed :
    let m : Machine SteadyHost := .fresh (.forHardware 1 64) { up := [0] }
    let s := m.run [.initVcpu 0]
    let t := s.run [.routePhysical 0 40 0xffffffff]
    (s.perform (.routePhysical 0 40 0xffffffff)).1 = .ok .done ∧
      (t.enableLines 0 0x100 1).1 = .ok () ∧ (t.enableLines 0 0x100 1).2.masking = [] ∧
      (t.perform (.unroutePhysical 0 40)).1 = .ok (.interrupt none) := by
  decide +kernel

end Machine

end VirtualGic
