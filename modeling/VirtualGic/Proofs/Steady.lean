/-
# Proofs.Steady — what questions about VCPUs leave behind

Whether a VCPU is up is asked more than once on the way to a delivery: to choose targets,
for each target, and again when the line is raised. Two machines that differ in such
questions, and in notes, are `Akin` if their hosts are. A host is `Steady` if it answers
the question about each VCPU in one way (`up`), and nothing else it answers depends on
having been asked.

Deliveries keep machines akin (`Akin.inject`). So an operation that asks around and then
raises lines can be compared with raising them right away.
-/
import VirtualGic.Proofs.Calls
import VirtualGic.Proofs.History

namespace VirtualGic

set_option autoImplicit false

/-- Hosts in `like` say of every VCPU whether it is `up`, whichever of them is asked; they give
the same other answers, and deliveries leave them in `like`. -/
structure Host.Steady {σ : Type} [Host σ] (up : Nat → Bool) (like : σ → σ → Prop) : Prop where
  symm : ∀ {g h : σ}, like g h → like h g
  online : ∀ {g h : σ} (v : Nat), like g h →
    (Host.online g v).1 = up v ∧ like (Host.online g v).2 h
  running : ∀ {g h : σ} (v : Nat), like g h →
    (Host.running g v).1 = (Host.running h v).1 ∧
      like (Host.running g v).2 (Host.running h v).2
  currentCpu : ∀ {g h : σ}, like g h →
    (Host.currentCpu g).1 = (Host.currentCpu h).1 ∧
      like (Host.currentCpu g).2 (Host.currentCpu h).2
  react : ∀ {g h : σ} {c : Call}, c.Delivers → like g h → like (Host.react g c) (Host.react h c)

theorem SteadyHost.steady (host : SteadyHost) :
    Host.Steady host.up.contains fun g h => g = host ∧ h = host where
  symm := And.symm
  online := by
    rintro _ _ v ⟨rfl, rfl⟩
    exact ⟨rfl, rfl, rfl⟩
  running := by
    rintro _ _ v ⟨rfl, rfl⟩
    exact ⟨rfl, rfl, rfl⟩
  currentCpu := by
    rintro _ _ ⟨rfl, rfl⟩
    exact ⟨rfl, rfl, rfl⟩
  react := fun _ => id

namespace Machine

variable {σ : Type}

/-- Two machines in one state that have made the same calls, among hosts in `like`. -/
structure Akin (like : σ → σ → Prop) (a b : Machine σ) : Prop where
  dist : a.dist = b.dist
  calls : a.calls = b.calls
  host : like a.host b.host

namespace Akin

variable {like : σ → σ → Prop} {a b : Machine σ}

theorem note_left (akin : Akin like a b) (n : Note) : Akin like (a.note n) b :=
  ⟨akin.dist, (calls_note a n).trans akin.calls, akin.host⟩

theorem modify (akin : Akin like a b) (f : Distributor → Distributor) :
    Akin like (a.modify f) (b.modify f) :=
  ⟨congrArg f akin.dist, akin.calls, akin.host⟩

variable [Host σ] {up : Nat → Bool}

theorem symm (steady : Host.Steady up like) (akin : Akin like a b) : Akin like b a :=
  ⟨akin.dist.symm, akin.calls.symm, steady.symm akin.host⟩

theorem note (steady : Host.Steady up like) (akin : Akin like a b) (n : Note) :
    Akin like (a.note n) (b.note n) :=
  ((akin.note_left n).symm steady |>.note_left n).symm steady

/-! ## Questions -/

theorem online (steady : Host.Steady up like) (akin : Akin like a b) (v : Nat) :
    (a.online v).1 = up v ∧ Akin like (a.online v).2 b := by
  obtain ⟨answer, host⟩ := steady.online v akin.host
  exact ⟨answer, akin.dist, akin.calls, host⟩

theorem online_both (steady : Host.Steady up like) (akin : Akin like a b) (v : Nat) :
    (a.online v).1 = up v ∧ (b.online v).1 = up v ∧
      Akin like (a.online v).2 (b.online v).2 := by
  obtain ⟨answer, first⟩ := akin.online steady v
  obtain ⟨answer', second⟩ := (first.symm steady).online steady v
  exact ⟨answer, answer', second.symm steady⟩

theorem running (steady : Host.Steady up like) (akin : Akin like a b) (v : Nat) :
    (a.running v).1 = (b.running v).1 ∧ Akin like (a.running v).2 (b.running v).2 := by
  obtain ⟨answer, host⟩ := steady.running v akin.host
  exact ⟨answer, akin.dist, akin.calls, host⟩

theorem currentCpu (steady : Host.Steady up like) (akin : Akin like a b) :
    a.currentCpu.1 = b.currentCpu.1 ∧ Akin like a.currentCpu.2 b.currentCpu.2 := by
  obtain ⟨answer, host⟩ := steady.currentCpu akin.host
  exact ⟨answer, akin.dist, akin.calls, host⟩

/-! ## Deliveries -/

theorem call (steady : Host.Steady up like) (akin : Akin like a b) {c : Call}
    (delivers : c.Delivers) : Akin like (a.call c) (b.call c) := by
  refine ⟨akin.dist, ?_, steady.react delivers akin.host⟩
  rw [calls_call, calls_call, akin.calls]

theorem kick (steady : Host.Steady up like) (akin : Akin like a b) (v : Nat) :
    Akin like (a.kick v) (b.kick v) := by
  obtain ⟨cpus, asked⟩ := akin.running steady v
  have woken := asked.call steady (c := .unblock v) trivial
  obtain ⟨here, looked⟩ := woken.currentCpu steady
  unfold Machine.kick
  simp only [← cpus, ← here]
  cases (a.running v).1 with
  | none => exact woken
  | some cpu =>
      simp only
      split
      · exact looked
      · exact looked.call steady trivial

theorem notify (steady : Host.Steady up like) (akin : Akin like a b) (line holder : Nat) :
    Akin like (a.notify line holder) (b.notify line holder) :=
  (akin.note steady _).kick steady holder

theorem retrigger (steady : Host.Steady up like) (akin : Akin like a b) (ref : LineRef)
    (line holder : Nat) :
    Akin like (a.retrigger ref line holder) (b.retrigger ref line holder) :=
  (akin.modify _).call steady trivial

theorem link (steady : Host.Steady up like) (akin : Akin like a b) (v : Nat) (ref : LineRef)
    (line : Nat) (priority : Byte) :
    Akin like (a.link v ref line priority) (b.link v ref line priority) := by
  have claimed := akin.modify (·.updateLine ref (Descriptor.claim v priority))
  unfold Machine.link
  simp only [claimed.dist]
  refine Akin.modify ?_ _
  split
  · exact claimed.call steady trivial
  · exact claimed

theorem deliver (steady : Host.Steady up like) (akin : Akin like a b) (v : Nat)
    (ref : LineRef) : Akin like (a.deliver [] v ref) (b.deliver [] v ref) := by
  have dist := akin.dist
  cases owner : (a.dist.descriptor ref).owner with
  | none =>
      obtain ⟨answer, answer', asked⟩ := akin.online_both steady v
      rw [deliver_of_free owner, deliver_of_free (dist ▸ owner), answer, answer', ← dist]
      split
      · exact (asked.link steady v ref _ _).notify steady _ v
      · exact asked.note steady _
  | some holder =>
      by_cases alive : (a.dist.vcpu? holder).isSome = true
      · rw [deliver_of_held owner alive, deliver_of_held (dist ▸ owner) (dist ▸ alive), ← dist]
        exact (akin.retrigger steady ref _ holder).notify steady _ holder
      · have absent : a.dist.vcpu? holder = none := by simpa using alive
        rw [deliver_of_missing owner absent, deliver_of_missing (dist ▸ owner) (dist ▸ absent),
          ← dist]
        exact akin.note steady _

/-- Raising a line keeps machines akin, and has one answer. -/
theorem inject (steady : Host.Steady up like) (akin : Akin like a b) (v line : Nat) :
    (a.inject v line).1 = (b.inject v line).1 ∧
      Akin like (a.inject v line).2 (b.inject v line).2 := by
  unfold Machine.inject injectAmid
  rw [← akin.dist]
  cases a.dist.resolve v line with
  | error error => exact ⟨rfl, akin⟩
  | ok ref => exact ⟨rfl, akin.deliver steady v ref⟩

end Akin

/-! ## Questions about many VCPUs -/

variable [Host σ] {up : Nat → Bool} {like : σ → σ → Prop} {a b : Machine σ}

theorem onlineAmong_of_akin (steady : Host.Steady up like) (akin : Akin like a b)
    (vs : List Nat) :
    (a.onlineAmong vs).1 = vs.filter up ∧ Akin like (a.onlineAmong vs).2 b := by
  induction vs generalizing a with
  | nil => exact ⟨rfl, akin⟩
  | cons v rest ih =>
      obtain ⟨answer, asked⟩ := akin.online steady v
      obtain ⟨others, done⟩ := ih asked
      unfold onlineAmong
      simp only [answer, others, List.filter_cons]
      exact ⟨trivial, done⟩

end Machine

end VirtualGic
