/-
# Proofs.Beside — two machines, one of them with a line in delivery

Two machines are `Beside` each other if the second one differs by the delivery of one
line: without that line its distributor is the one of the first, what their hosts answer
about VCPUs is the same, and both have made the same calls on the physical controller
since a point in the past of each.

Whatever is not about the line keeps them so. The functions of the program are gone
through from the smallest up; each of them answers the same on both sides, and leaves the
two beside each other. Wake-ups may differ, as they depend on where VCPUs run.
-/
import VirtualGic.Proofs.Apart

namespace VirtualGic

set_option autoImplicit false

/-- What hosts answer about VCPUs does not depend on notifications. A part of the host
decides these answers and what becomes of itself. Calls leave it alone, but for the one
that ends the domain, and so do questions about processors. -/
structure Aloof {σ α : Type} [Host σ] (part : σ → α) : Prop where
  online : ∀ {g h : σ} (v : Nat), part g = part h →
    (Host.online g v).1 = (Host.online h v).1 ∧
      part (Host.online g v).2 = part (Host.online h v).2
  upcallPending : ∀ {g h : σ} (v : Nat), part g = part h →
    (Host.upcallPending g v).1 = (Host.upcallPending h v).1 ∧
      part (Host.upcallPending g v).2 = part (Host.upcallPending h v).2
  running : ∀ (h : σ) (v : Nat), part (Host.running h v).2 = part h
  currentCpu : ∀ h : σ, part (Host.currentCpu h).2 = part h
  react : ∀ (h : σ) (c : Call), c ≠ .crash → part (Host.react h c) = part h
  crash : ∀ {g h : σ}, part g = part h →
    part (Host.react g .crash) = part (Host.react h .crash)

namespace Machine

variable {σ : Type}

/-- The calls that were made on the physical controller, oldest first. -/
def physical (m : Machine σ) : List Call :=
  m.calls.filter Call.isPhysical

theorem physical_note (m : Machine σ) (n : Note) : (m.note n).physical = m.physical := by
  simp [physical]

variable [Host σ]

theorem physical_call (m : Machine σ) (c : Call) :
    (m.call c).physical = m.physical ++ [c].filter Call.isPhysical := by
  simp [physical]

end Machine

/-! ## What reaches a line -/

theorem LineRef.not_named_cons {v line : Nat} {rest : List Nat} {ref : LineRef}
    (outside : ¬ ref.Named v (line :: rest)) :
    ¬ ref.Named v [line] ∧ ¬ ref.Named v rest := by
  constructor
  · rintro ⟨seen, number⟩
    exact outside ⟨seen, List.mem_singleton.1 number ▸ List.mem_cons_self⟩
  · rintro ⟨seen, number⟩
    exact outside ⟨seen, List.mem_cons_of_mem line number⟩

namespace Machine

variable {σ : Type} [Host σ]

/-- Whether the software interrupt of `value` that VCPU `v` sends to these targets is
raised on the line `ref`. -/
def SendsTo (ref : LineRef) (v : Nat) (value : Word) : List Nat → Machine σ → Prop
  | [], _ => False
  | target :: rest, m =>
      (m.online target).1 = true ∧
          m.dist.lineRef? target (SoftwareInterrupt.line.read value).toNat = some ref ∨
        SendsTo ref v value rest (sendTo v value m target)

/-- Whether the software interrupt of `value`, written by VCPU `v`, is raised on `ref`. -/
def Sends (ref : LineRef) (v : Nat) (value : Word) (m : Machine σ) : Prop :=
  ∃ choice, SoftwareInterrupt.filter? value = some choice ∧
    (m.softwareTargets v value choice).1.length ≤ maxVcpus ∧
      SendsTo ref v value (m.softwareTargets v value choice).1
        (m.softwareTargets v value choice).2

/-- Whether a write of `value` to a register by VCPU `v` is about the line `ref`. Writes to
the enable bitmap are about the lines whose bit they change. -/
def Stores (ref : LineRef) (v position : Nat) (value : Word) (m : Machine σ) : Register → Prop
  | .setEnable => ref.Changed m.dist v position (value &&& ~~~·)
  | .clearEnable => ref.Changed m.dist v position (value &&& ·)
  | .softwareInterrupt => m.Sends ref v value
  | _ => False

/-- Whether a write of VCPU `v` at `offset` is accepted and about the line `ref`. -/
def Writes (ref : LineRef) (v offset : Nat) (width : Width) (value : Word) (m : Machine σ) :
    Prop :=
  (m.dist.vcpu? v).isSome = true ∧ ∃ group : Group, group.Accepts offset width ∧
    (m.note (.registerWritten v group.name (offset - group.first) value)).Stores ref v
      (offset - group.first) value group.register

end Machine

/-- Whether an operation acts on the descriptor of the line `ref`. -/
def Operation.Reaches {σ : Type} [Host σ] (ref : LineRef) (m : Machine σ) : Operation → Prop
  | .inject v line | .setVisible v line _ | .setActive v line _ | .retire v line
  | .routePhysical v line _ | .unroutePhysical v line => m.dist.resolve v line = .ok ref
  | .injectSpi line => linesPerRank ≤ line ∧ m.dist.resolve 0 line = .ok ref
  | .dispatchSoftware v value => (m.dist.vcpu? v).isSome = true ∧ m.Sends ref v value
  | .enableLines v mask rank | .disableLines v mask rank =>
      (m.dist.vcpu? v).isSome = true ∧ ref.Masked v mask rank
  | .write v offset width value => m.Writes ref v offset width value
  | .writeAt v address width value =>
      ∃ offset, m.dist.config.frameOffset address = .ok offset ∧ m.Writes ref v offset width value
  | _ => False

/-- Whether an operation asks what the delivery of `ref` on `v` shows in: for the lines
inflight on `v`, or for the flags of the line. -/
def Operation.Looks (v : Nat) (ref : LineRef) (d : Distributor) : Operation → Prop
  | .inflightLines w => w = v
  | .pendingStatus w line => d.resolve w line = .ok ref
  | _ => False

/-! ## Side by side -/

/-- What it takes to hold two machines beside each other: the part in which their hosts
have to agree, the line that only the second one delivers, and the physical calls that each
of them had made at a point in its past. -/
structure Pairing (σ α : Type) [Host σ] where
  /-- The part of a host that decides its answers about VCPUs. -/
  part : σ → α
  aloof : Aloof part
  /-- The VCPU that may hold the line. -/
  vcpu : Nat
  ref : LineRef
  /-- The descriptor of the line in the second machine. -/
  line : Descriptor
  /-- Its snapshot in the first one. -/
  snapshot : Byte
  /-- The physical calls of the first machine so far. -/
  alone : List Call
  /-- The physical calls of the second machine so far. -/
  beside : List Call

namespace Pairing

variable {σ α : Type} [Host σ]

/-- The second machine is the first one with the line in delivery, and has made the same
physical calls since. -/
structure Beside (k : Pairing σ α) (a b : Machine σ) : Prop where
  apart : Apart k.vcpu k.ref k.line b.dist
  dist : a.dist = b.dist.without k.vcpu k.ref k.snapshot
  host : k.part a.host = k.part b.host
  made : ∃ made, a.physical = k.alone ++ made ∧ b.physical = k.beside ++ made

/-- Two outcomes with one answer and machines beside each other. -/
def Both {β : Type} (k : Pairing σ α) (x y : β × Machine σ) : Prop :=
  x.1 = y.1 ∧ k.Beside x.2 y.2

/-- A machine goes on without a change that matters. -/
structure Hushed (part : σ → α) (m m' : Machine σ) : Prop where
  dist : m'.dist = m.dist
  host : part m'.host = part m.host
  physical : m'.physical = m.physical

namespace Hushed

variable {part : σ → α} {m m' m'' : Machine σ}

omit [Host σ] in
theorem trans (first : Hushed part m m') (second : Hushed part m' m'') : Hushed part m m'' :=
  ⟨second.dist.trans first.dist, second.host.trans first.host,
    second.physical.trans first.physical⟩

omit [Host σ] in
theorem note (m : Machine σ) (n : Note) : Hushed part m (m.note n) :=
  ⟨rfl, rfl, m.physical_note n⟩

theorem call (aloof : Aloof part) (m : Machine σ) {c : Call} (wakes : c.isWake = true) :
    Hushed part m (m.call c) := by
  refine ⟨rfl, aloof.react m.host c ?_, ?_⟩
  · rintro rfl
    cases wakes
  · rw [Machine.physical_call]
    cases c with
    | unblock | check => simp [Call.isPhysical]
    | _ => cases wakes

theorem kick (aloof : Aloof part) (m : Machine σ) (v : Nat) : Hushed part m (m.kick v) := by
  have asked : Hushed part m (m.running v).2 := ⟨rfl, aloof.running m.host v, rfl⟩
  have woken : Hushed part m ((m.running v).2.call (.unblock v)) :=
    asked.trans (call aloof _ rfl)
  unfold Machine.kick
  simp only
  split
  · exact woken
  · have here : Hushed part m ((m.running v).2.call (.unblock v)).currentCpu.2 :=
      woken.trans ⟨rfl, aloof.currentCpu _, rfl⟩
    split
    · exact here
    · exact here.trans (call aloof _ rfl)

theorem notify (aloof : Aloof part) (m : Machine σ) (line holder : Nat) :
    Hushed part m (m.notify line holder) :=
  (note m _).trans (kick aloof _ holder)

end Hushed

namespace Beside

variable {k : Pairing σ α} {a b a' b' : Machine σ}

/-! ## What reads the same -/

section Readings

variable {other : LineRef}

theorem resolve (h : k.Beside a b) (u line : Nat) :
    a.dist.resolve u line = b.dist.resolve u line := by
  rw [h.dist, Distributor.resolve_without]

theorem lineRef? (h : k.Beside a b) (u line : Nat) :
    a.dist.lineRef? u line = b.dist.lineRef? u line := by
  rw [h.dist, Distributor.lineRef?_without]

theorem present (h : k.Beside a b) (u : Nat) :
    (a.dist.vcpu? u).isSome = (b.dist.vcpu? u).isSome := by
  rw [h.dist, Distributor.vcpu?_isSome_without]

theorem there (h : k.Beside a b) :
    (a.dist.descriptor? other).isSome = (b.dist.descriptor? other).isSome := by
  rw [h.dist, Distributor.descriptor?_isSome_without]

theorem descriptor (h : k.Beside a b) (ne : other ≠ k.ref) :
    a.dist.descriptor other = b.dist.descriptor other := by
  rw [h.dist, Distributor.descriptor_without_ne _ ne]

theorem priorityOf (h : k.Beside a b) (u line : Nat) :
    a.dist.priorityOf u line = b.dist.priorityOf u line := by
  rw [h.dist, Distributor.priorityOf_without]

theorem rank? (h : k.Beside a b) (u index : Nat) :
    a.dist.rank? u index = b.dist.rank? u index := by
  rw [h.dist, Distributor.rank?_without]

theorem enabled (h : k.Beside a b) : a.dist.enabled = b.dist.enabled := by
  rw [h.dist, Distributor.enabled_without]

theorem shape (h : k.Beside a b) : a.dist.shape = b.dist.shape := by
  rw [h.dist, Distributor.shape_without]

theorem config (h : k.Beside a b) : a.dist.config = b.dist.config :=
  congrArg Prod.fst h.shape

/-- A VCPU has state on both sides or on none. -/
theorem vcpu?_cases (h : k.Beside a b) (u : Nat) :
    a.dist.vcpu? u = none ∧ b.dist.vcpu? u = none ∨
      ∃ x y, a.dist.vcpu? u = some x ∧ b.dist.vcpu? u = some y := by
  have same := h.present u
  cases here : a.dist.vcpu? u with
  | none =>
      rw [here, Option.isSome_none] at same
      exact .inl ⟨rfl, by simpa using same.symm⟩
  | some x =>
      rw [here, Option.isSome_some] at same
      obtain ⟨y, there⟩ := Option.isSome_iff_exists.1 same.symm
      exact .inr ⟨x, y, rfl, there⟩

theorem requireVcpu_cases (h : k.Beside a b) (u : Nat) :
    (∃ e, a.dist.requireVcpu u = .error e ∧ b.dist.requireVcpu u = .error e) ∨
      (b.dist.vcpu? u).isSome = true ∧
        ∃ x y, a.dist.requireVcpu u = .ok x ∧ b.dist.requireVcpu u = .ok y := by
  unfold Distributor.requireVcpu
  rcases h.vcpu?_cases u with ⟨here, there⟩ | ⟨x, y, here, there⟩
  · exact .inl ⟨.invalidVcpu u, by rw [here], by rw [there]⟩
  · exact .inr ⟨by rw [there]; rfl, x, y, by rw [here], by rw [there]⟩

/-- A number is refused on both sides, or stands for one line, which is not the line that
is told apart. -/
theorem resolve_cases (h : k.Beside a b) {u line : Nat}
    (outside : a.dist.resolve u line ≠ .ok k.ref) :
    (∃ e, a.dist.resolve u line = .error e ∧ b.dist.resolve u line = .error e) ∨
      ∃ other, a.dist.resolve u line = .ok other ∧ b.dist.resolve u line = .ok other ∧
        other ≠ k.ref ∧ other.number = line ∧ other.SeenBy u ∧
          (b.dist.descriptor? other).isSome = true ∧ (b.dist.vcpu? u).isSome = true := by
  rw [h.resolve] at outside ⊢
  cases resolved : b.dist.resolve u line with
  | error error => exact .inl ⟨error, rfl, rfl⟩
  | ok other =>
      obtain ⟨present, number, seen, there⟩ := Distributor.found_of_resolve resolved
      exact .inr ⟨other, rfl, rfl, fun same => outside (by rw [resolved, same]), number, seen,
        there, present⟩

end Readings

/-! ## Small steps -/

theorem hushed (h : k.Beside a b) (left : Hushed k.part a a') (right : Hushed k.part b b') :
    k.Beside a' b' := by
  obtain ⟨made, first, second⟩ := h.made
  refine ⟨right.dist ▸ h.apart, ?_, ?_, made, ?_, ?_⟩
  · rw [left.dist, right.dist, h.dist]
  · rw [left.host, right.host, h.host]
  · rw [left.physical, first]
  · rw [right.physical, second]

theorem note (h : k.Beside a b) (n n' : Note) : k.Beside (a.note n) (b.note n') :=
  h.hushed (.note a n) (.note b n')

theorem notify (h : k.Beside a b) (line holder : Nat) :
    k.Beside (a.notify line holder) (b.notify line holder) :=
  h.hushed (.notify k.aloof a line holder) (.notify k.aloof b line holder)

theorem call (h : k.Beside a b) (c : Call) : k.Beside (a.call c) (b.call c) := by
  obtain ⟨made, first, second⟩ := h.made
  refine ⟨h.apart, h.dist, ?_, made ++ [c].filter Call.isPhysical, ?_, ?_⟩
  · by_cases ends : c = .crash
    · subst ends
      exact k.aloof.crash h.host
    · exact (k.aloof.react _ c ends).trans (h.host.trans (k.aloof.react _ c ends).symm)
  · rw [Machine.physical_call, first, List.append_assoc]
  · rw [Machine.physical_call, second, List.append_assoc]

theorem online (h : k.Beside a b) (u : Nat) : k.Both (a.online u) (b.online u) :=
  ⟨(k.aloof.online u h.host).1, h.apart, h.dist, (k.aloof.online u h.host).2, h.made⟩

theorem upcallPending (h : k.Beside a b) (u : Nat) :
    k.Both (a.upcallPending u) (b.upcallPending u) :=
  ⟨(k.aloof.upcallPending u h.host).1, h.apart, h.dist, (k.aloof.upcallPending u h.host).2,
    h.made⟩

/-- What an act elsewhere does to the distributor. -/
theorem act (h : k.Beside a b) {t : Act} (avoids : t.Avoids k.vcpu k.ref)
    (allowed : t.Allowed b.dist) : k.Beside (a.modify t.apply) (b.modify t.apply) where
  apart := h.apart.apply avoids allowed
  dist := by
    rw [Machine.dist_modify, Machine.dist_modify, h.dist, h.apart.apply_without avoids allowed]
  host := h.host
  made := h.made

/-! ## Raising a line -/

section Raising

variable {u : Nat} {other : LineRef}

theorem retrigger (h : k.Beside a b) (ne : other ≠ k.ref) (line : Nat) {holder : Nat}
    (owned : (b.dist.descriptor other).owner = some holder) :
    k.Beside (a.retrigger other line holder) (b.retrigger other line holder) :=
  (h.act (t := .retrigger holder other) ne owned).call _

theorem link (h : k.Beside a b) (ne : other ≠ k.ref) (seen : other.SeenBy u)
    (there : (b.dist.descriptor? other).isSome = true)
    (present : (b.dist.vcpu? u).isSome = true) (free : (b.dist.descriptor other).owner = none) :
    k.Beside
      (a.link u other (b.dist.descriptor other).line
        (b.dist.priorityOf u (b.dist.descriptor other).line))
      (b.link u other (b.dist.descriptor other).line
        (b.dist.priorityOf u (b.dist.descriptor other).line)) := by
  have left := Machine.link_eq u (h.there.trans there)
    (b.dist.priorityOf u (b.dist.descriptor other).line)
  rw [h.descriptor ne] at left
  rw [left, Machine.link_eq u there]
  have allowed := (⟨there, seen, present, free, rfl⟩ : (Act.link u other
    (b.dist.priorityOf u (b.dist.descriptor other).line)).Allowed b.dist)
  by_cases enabled : (b.dist.descriptor other).status.enabled = true
  · rw [if_pos enabled, if_pos enabled]
    exact (h.call _).act ne allowed
  · rw [if_neg enabled, if_neg enabled]
    exact h.act ne allowed

theorem deliver (h : k.Beside a b) (ne : other ≠ k.ref) (seen : other.SeenBy u)
    (there : (b.dist.descriptor? other).isSome = true)
    (present : (b.dist.vcpu? u).isSome = true) :
    k.Beside (a.deliver [] u other) (b.deliver [] u other) := by
  cases owner : (b.dist.descriptor other).owner with
  | none =>
      have free : (a.dist.descriptor other).owner = none := by rw [h.descriptor ne, owner]
      obtain ⟨answer, asked⟩ := h.online u
      rw [Machine.deliver_of_free free, Machine.deliver_of_free owner, h.descriptor ne,
        h.priorityOf, answer]
      split
      · exact (asked.link ne seen there present owner).notify _ u
      · exact asked.note _ _
  | some holder =>
      have found := Distributor.descriptor?_of_owner owner
      have alive := (h.apart.consistent.owned found owner).2.present
      have owned : (a.dist.descriptor other).owner = some holder := by rw [h.descriptor ne, owner]
      rw [Machine.deliver_of_held owned ((h.present holder).trans alive),
        Machine.deliver_of_held owner alive, h.descriptor ne]
      exact (h.retrigger ne _ owner).notify _ holder

theorem inject (h : k.Beside a b) {line : Nat} (outside : a.dist.resolve u line ≠ .ok k.ref) :
    k.Both (a.inject u line) (b.inject u line) := by
  unfold Machine.inject Machine.injectAmid
  rcases h.resolve_cases outside with
    ⟨e, left, right⟩ | ⟨other, left, right, ne, -, seen, there, present⟩
  · rw [left, right]
    exact ⟨rfl, h⟩
  · rw [left, right]
    exact ⟨rfl, h.deliver ne seen there present⟩

theorem firstOnline (h : k.Beside a b) (vs : List Nat) :
    k.Both (a.firstOnline vs) (b.firstOnline vs) := by
  induction vs generalizing a b with
  | nil => exact ⟨rfl, h⟩
  | cons v rest ih =>
      unfold Machine.firstOnline
      rcases h.vcpu?_cases v with ⟨here, there⟩ | ⟨x, y, here, there⟩
      · simp only [here, there]
        exact ih h
      · obtain ⟨answer, asked⟩ := h.online v
        simp only [here, there, answer]
        split
        · exact ⟨rfl, asked⟩
        · exact ih asked

theorem injectSpi (h : k.Beside a b) {line : Nat}
    (outside : ¬ (linesPerRank ≤ line ∧ a.dist.resolve 0 line = .ok k.ref)) :
    k.Both (a.injectSpi line) (b.injectSpi line) := by
  unfold Machine.injectSpi
  split
  · exact ⟨rfl, h⟩
  · rename_i high
    rcases h.requireVcpu_cases 0 with ⟨e, here, there⟩ | ⟨present, x, y, here, there⟩
    · simp only [here, there]
      exact ⟨rfl, h⟩
    · simp only [here, there, h.rank?]
      split
      · exact ⟨rfl, h⟩
      · split
        · exact ⟨rfl, h⟩
        · rename_i mask _
          obtain ⟨answer, asked⟩ := h.firstOnline (SetBits.mk (mask.setWidth 32)).toList
          rw [answer]
          refine asked.inject ?_
          rw [Machine.dist_firstOnline]
          intro resolved
          refine outside ⟨Nat.not_lt.1 high, ?_⟩
          obtain ⟨-, number, -, exists'⟩ := Distributor.found_of_resolve resolved
          refine Distributor.resolve_eq_ok_iff.2 ⟨(h.present 0).trans present, ?_⟩
          refine Distributor.lineRef?_eq_some_iff.2 ⟨number, ?_, exists'⟩
          exact LineRef.seenBy_shared (by rw [number]; exact Nat.not_lt.1 high) 0

end Raising

/-! ## Software interrupts -/

section Software

variable {u : Nat} {value : Word}

theorem onlineAmong (h : k.Beside a b) (vs : List Nat) :
    k.Both (a.onlineAmong vs) (b.onlineAmong vs) := by
  induction vs generalizing a b with
  | nil => exact ⟨rfl, h⟩
  | cons v rest ih =>
      obtain ⟨answer, asked⟩ := h.online v
      obtain ⟨others, after⟩ := ih asked
      unfold Machine.onlineAmong
      refine ⟨?_, after⟩
      simp only [answer, others]

theorem softwareTargets (h : k.Beside a b) (choice : TargetFilter) :
    k.Both (a.softwareTargets u value choice) (b.softwareTargets u value choice) := by
  cases choice with
  | list | selfOnly => exact ⟨rfl, h⟩
  | allButSelf =>
      have present : a.dist.present = b.dist.present := by
        have shape := h.shape
        simp only [Distributor.shape, Prod.mk.injEq] at shape
        simp only [Distributor.present, shape.2.2.2, h.present]
      simp only [Machine.softwareTargets, present]
      exact h.onlineAmong _

theorem sendTo (h : k.Beside a b) {target : Nat}
    (outside : ¬ ((a.online target).1 = true ∧
      a.dist.lineRef? target (SoftwareInterrupt.line.read value).toNat = some k.ref)) :
    k.Beside (Machine.sendTo u value a target) (Machine.sendTo u value b target) := by
  unfold Machine.sendTo
  rcases h.vcpu?_cases target with ⟨here, there⟩ | ⟨x, y, here, there⟩
  · simp only [here, there]
    exact h.note _ _
  · obtain ⟨answer, asked⟩ := h.online target
    rw [answer, h.lineRef?] at outside
    simp only [here, there, answer, Machine.dist_online, h.lineRef?]
    split
    · rename_i up
      split
      · exact asked
      · rename_i other found
        obtain ⟨-, seen, exists'⟩ := Distributor.lineRef?_eq_some_iff.1 found
        have ne : other ≠ k.ref := fun same => outside ⟨up, by rw [found, same]⟩
        exact (asked.note _ _).deliver ne seen exists' (by simp [there])
    · exact asked.note _ _

theorem sendAll (h : k.Beside a b) {targets : List Nat}
    (outside : ¬ a.SendsTo k.ref u value targets) :
    k.Beside (targets.foldl (Machine.sendTo u value) a)
      (targets.foldl (Machine.sendTo u value) b) := by
  induction targets generalizing a b with
  | nil => exact h
  | cons target rest ih =>
      simp only [Machine.SendsTo, not_or] at outside
      exact ih (h.sendTo outside.1) outside.2

theorem sendSoftware (h : k.Beside a b) (outside : ¬ a.Sends k.ref u value) :
    k.Both (a.sendSoftware u value) (b.sendSoftware u value) := by
  unfold Machine.sendSoftware
  split
  · exact ⟨rfl, h.note _ _⟩
  · rename_i choice chosen
    obtain ⟨answer, asked⟩ := @softwareTargets _ _ _ k a b u value h choice
    simp only [← answer]
    split
    · exact ⟨rfl, asked⟩
    · rename_i few
      exact ⟨rfl, asked.sendAll fun sends => outside ⟨choice, chosen, Nat.not_lt.1 few, sends⟩⟩

end Software

/-! ## Enabling and disabling -/

section Masking

variable {u : Nat} {other : LineRef}

theorem raiseHidden (h : k.Beside a b) (ne : other ≠ k.ref) :
    k.Beside (a.raiseHidden other) (b.raiseHidden other) := by
  simp only [Machine.raiseHidden, h.descriptor ne, h.present]
  split
  · exact h
  · split
    · exact h.call _
    · exact h

theorem showEnabled (h : k.Beside a b) (line : Nat) (ne : other ≠ k.ref) (seen : other.SeenBy u)
    (there : (b.dist.descriptor? other).isSome = true)
    (present : (b.dist.vcpu? u).isSome = true) :
    k.Beside (a.showEnabled u line other) (b.showEnabled u line other) := by
  unfold Machine.showEnabled
  rw [h.config]
  split
  · obtain ⟨answer, asked⟩ := h.upcallPending u
    simp only [answer, asked.descriptor ne]
    split
    · exact asked.deliver ne seen there present
    · exact asked.raiseHidden ne
  · exact h.raiseHidden ne

theorem enablePhysical (h : k.Beside a b) (ne : other ≠ k.ref) :
    k.Beside (a.enablePhysical other) (b.enablePhysical other) := by
  simp only [Machine.enablePhysical, h.descriptor ne]
  split
  · exact h
  · exact h.call _

theorem disablePhysical (h : k.Beside a b) (ne : other ≠ k.ref) :
    k.Beside (a.disablePhysical other) (b.disablePhysical other) := by
  simp only [Machine.disablePhysical, h.descriptor ne]
  split
  · exact h
  · exact h.call _

theorem enableLine (h : k.Beside a b) {line : Nat} (outside : ¬ k.ref.Named u [line])
    (present : (b.dist.vcpu? u).isSome = true) :
    k.Beside (Machine.enableLine u a line) (Machine.enableLine u b line) := by
  unfold Machine.enableLine
  rw [h.lineRef?]
  split
  · exact h
  · rename_i other found
    obtain ⟨-, seen, there⟩ := Distributor.lineRef?_eq_some_iff.1 found
    have ne : other ≠ k.ref :=
      fun same => outside (same ▸ .of_lineRef? found List.mem_cons_self)
    have enabled := h.act (t := .enable other) ne there
    refine (enabled.showEnabled line ne seen ?_ ?_).enablePhysical ne
    · simp only [Machine.dist_modify, Act.apply, Distributor.descriptor?_updateLine_self]
      simpa using there
    · simpa only [Machine.dist_modify, Act.apply, Machine.vcpu?_isSome_updateLine] using present

theorem enableAll (h : k.Beside a b) {lines : List Nat} (outside : ¬ k.ref.Named u lines)
    (present : (b.dist.vcpu? u).isSome = true) :
    k.Beside (lines.foldl (Machine.enableLine u) a) (lines.foldl (Machine.enableLine u) b) := by
  induction lines generalizing a b with
  | nil => exact h
  | cons line rest ih =>
      obtain ⟨first, others⟩ := LineRef.not_named_cons outside
      refine ih (h.enableLine first present) others ?_
      refine Machine.present_of_steps (fun t enables => ?_)
        (Machine.steps_enableLine b line present) present
      cases t <;> trivial

theorem enableMask (h : k.Beside a b) {mask : Word} {rank : Nat}
    (outside : ¬ k.ref.Masked u mask rank) (present : (b.dist.vcpu? u).isSome = true) :
    k.Both (a.enableMask u mask rank) (b.enableMask u mask rank) := by
  unfold Machine.enableMask
  split
  · exact ⟨rfl, h⟩
  · rename_i lines fits
    exact ⟨rfl, h.enableAll (fun named => outside ⟨lines, fits, named⟩) present⟩

theorem dequeue (h : k.Beside a b) (ne : other ≠ k.ref) :
    k.Beside (a.dequeue [] u other other.number) (b.dequeue [] u other other.number) := by
  cases owner : (b.dist.descriptor other).owner with
  | none =>
      have free : (a.dist.descriptor other).owner = none := by rw [h.descriptor ne, owner]
      rw [Machine.dequeue_of_free _ free, Machine.dequeue_of_free _ owner]
      exact h.call _
  | some holder =>
      have found := Distributor.descriptor?_of_owner owner
      have alive := (h.apart.consistent.owned found owner).2.present
      have owned : (a.dist.descriptor other).owner = some holder := by rw [h.descriptor ne, owner]
      rw [Machine.dequeue_of_held owned ((h.present holder).trans alive),
        Machine.dequeue_of_held owner alive]
      exact (h.act (t := .unlink holder other) ne owner).call _

theorem disableLine (h : k.Beside a b) {line : Nat} (outside : ¬ k.ref.Named u [line]) :
    k.Beside (Machine.disableLine (fun _ => []) u a line)
      (Machine.disableLine (fun _ => []) u b line) := by
  unfold Machine.disableLine
  rw [h.lineRef?]
  split
  · exact h
  · rename_i other found
    obtain ⟨rfl, -, there⟩ := Distributor.lineRef?_eq_some_iff.1 found
    have ne : other ≠ k.ref :=
      fun same => outside (same ▸ .of_lineRef? found List.mem_cons_self)
    have disabled := h.act (t := .touch other .disabled) ne there
    exact (disabled.dequeue ne).disablePhysical ne

theorem disableAll (h : k.Beside a b) {lines : List Nat} (outside : ¬ k.ref.Named u lines) :
    k.Beside (lines.foldl (Machine.disableLine (fun _ => []) u) a)
      (lines.foldl (Machine.disableLine (fun _ => []) u) b) := by
  induction lines generalizing a b with
  | nil => exact h
  | cons line rest ih =>
      obtain ⟨first, others⟩ := LineRef.not_named_cons outside
      exact ih (h.disableLine first) others

theorem disableMask (h : k.Beside a b) {mask : Word} {rank : Nat}
    (outside : ¬ k.ref.Masked u mask rank) :
    k.Both (a.disableMask (fun _ => []) u mask rank) (b.disableMask (fun _ => []) u mask rank) := by
  unfold Machine.disableMask
  split
  · exact ⟨rfl, h⟩
  · rename_i lines fits
    exact ⟨rfl, h.disableAll fun named => outside ⟨lines, fits, named⟩⟩

end Masking

/-! ## Reports, completion and release -/

section Completion

variable {u line : Nat}

theorem updateStatus (h : k.Beside a b) (report : Report)
    (outside : a.dist.resolve u line ≠ .ok k.ref) :
    k.Both (a.updateStatus report.apply u line) (b.updateStatus report.apply u line) := by
  unfold Machine.updateStatus
  rcases h.resolve_cases outside with ⟨e, left, right⟩ | ⟨other, left, right, ne, -, -, there, -⟩
  · rw [left, right]
    exact ⟨rfl, h⟩
  · rw [left, right]
    exact ⟨rfl, h.act (t := .touch other report) ne there⟩

theorem routePhysical (h : k.Beside a b) (irq : Nat)
    (outside : a.dist.resolve u line ≠ .ok k.ref) :
    k.Both (a.routePhysical u line irq) (b.routePhysical u line irq) := by
  unfold Machine.routePhysical
  rcases h.resolve_cases outside with ⟨e, left, right⟩ | ⟨other, left, right, ne, -, -, there, -⟩
  · rw [left, right]
    exact ⟨rfl, h⟩
  · rw [left, right]
    exact ⟨rfl, (h.act (t := .touch other (.routed irq)) ne there).note _ _⟩

theorem unroutePhysical (h : k.Beside a b) (outside : a.dist.resolve u line ≠ .ok k.ref) :
    k.Both (a.unroutePhysical u line) (b.unroutePhysical u line) := by
  unfold Machine.unroutePhysical
  rcases h.resolve_cases outside with ⟨e, left, right⟩ | ⟨other, left, right, ne, -, -, there, -⟩
  · rw [left, right]
    exact ⟨rfl, h⟩
  · rw [left, right]
    refine ⟨?_, h.act (t := .touch other .unrouted) ne there⟩
    simp only [h.descriptor ne]

theorem retire (h : k.Beside a b) (outside : a.dist.resolve u line ≠ .ok k.ref) :
    k.Both (a.retire u line) (b.retire u line) := by
  rcases h.resolve_cases outside with
    ⟨e, left, right⟩ | ⟨other, left, right, ne, rfl, -, there, -⟩
  · unfold Machine.retire
    rw [left, right]
    exact ⟨rfl, h⟩
  · have completed := h.act (t := .touch other .completed) ne there
    rw [Machine.retire_of_resolve left, Machine.retire_of_resolve right, h.descriptor ne]
    split
    · exact ⟨rfl, completed⟩
    · rename_i owned
      split
      · exact ⟨rfl, completed.call _⟩
      · refine ⟨rfl, completed.act (t := .unlink u other) ne ?_⟩
        show ((b.dist.updateLine other Descriptor.complete).descriptor other).owner = some u
        rw [Distributor.descriptor_updateLine_self there]
        exact Decidable.not_not.1 owned

theorem clearPending (h : k.Beside a b) (ne : u ≠ k.vcpu) :
    k.Both (a.clearPending u) (b.clearPending u) := by
  unfold Machine.clearPending
  rcases h.requireVcpu_cases u with ⟨e, here, there⟩ | ⟨-, x, y, here, there⟩
  · simp only [here, there]
    exact ⟨rfl, h⟩
  · simp only [here, there]
    exact ⟨rfl, ((h.act (t := .clear u) ne trivial).call _).note _ _⟩

theorem freeVcpu (h : k.Beside a b) (ne : u ≠ k.vcpu) :
    k.Both (a.freeVcpu u) (b.freeVcpu u) := by
  have cleared := h.clearPending ne
  have empty := fun list => @Machine.entries_clearPending _ _ b u list
  unfold Machine.freeVcpu
  cases left : a.clearPending u with
  | mk answer a' =>
      cases right : b.clearPending u with
      | mk answer' b' =>
          rw [left, right] at cleared
          rw [right] at empty
          obtain ⟨rfl, after⟩ := cleared
          cases answer with
          | error failure => exact ⟨rfl, after⟩
          | ok done => exact ⟨rfl, (after.act (t := .release u) ne empty).note _ _⟩

theorem initVcpu (h : k.Beside a b) (u : Nat) : k.Both (a.initVcpu u) (b.initVcpu u) := by
  have slot : ∀ d : Distributor,
      d.vcpus[u]? = if u < d.vcpus.size then some (d.vcpu? u) else none := by
    intro d
    unfold Distributor.vcpu?
    split
    · rename_i inside
      simp [inside]
    · rename_i outside
      simpa using outside
  have shape := h.shape
  simp only [Distributor.shape, Prod.mk.injEq] at shape
  unfold Machine.initVcpu
  rw [h.config, slot, slot, shape.2.2.2]
  cases counted : b.dist.config.lineCount with
  | error fault => exact ⟨rfl, h⟩
  | ok capacity =>
      by_cases inside : u < b.dist.vcpus.size
      · simp only [if_pos inside]
        rcases h.vcpu?_cases u with ⟨here, there⟩ | ⟨x, y, here, there⟩
        · simp only [here, there]
          cases created : Vcpu.create u capacity with
          | error fault => exact ⟨rfl, h⟩
          | ok vcpu =>
              have allowed : (Act.allocate u vcpu).Allowed b.dist :=
                ⟨there, inside, capacity, counted, created⟩
              exact ⟨rfl, (h.act (t := .allocate u vcpu) trivial allowed).note _ _⟩
        · simp only [here, there]
          exact ⟨rfl, h⟩
      · simp only [if_neg inside]
        exact ⟨rfl, h⟩

end Completion

/-! ## Trapped accesses -/

section Accesses

variable {u : Nat}

theorem decode (h : k.Beside a b) (offset : Nat) (width : Width) :
    k.Both (a.decode u offset width) (b.decode u offset width) := by
  unfold Machine.decode
  split
  · exact ⟨rfl, h.note _ _⟩
  · split
    · exact ⟨rfl, h⟩
    · exact ⟨rfl, (h.note _ _).call _⟩

theorem readRegister (h : k.Beside a b) (access : Access) (register : Register) :
    a.dist.readRegister u access register = b.dist.readRegister u access register := by
  have shape := h.shape
  simp only [Distributor.shape, Prod.mk.injEq] at shape
  unfold Distributor.readRegister
  simp only [Distributor.readBank, Distributor.readSenders, h.rank?, h.enabled, shape.1, shape.2.1]

theorem read (h : k.Beside a b) (offset : Nat) (width : Width) (signed : Bool) :
    k.Both (a.read u offset width signed) (b.read u offset width signed) := by
  unfold Machine.read
  rcases h.requireVcpu_cases u with ⟨e, here, there⟩ | ⟨-, x, y, here, there⟩
  · simp only [here, there]
    exact ⟨rfl, h⟩
  · have decoded := @decode _ _ _ k a b u h offset width
    simp only [here, there]
    cases left : a.decode u offset width with
    | mk answer a' =>
        cases right : b.decode u offset width with
        | mk answer' b' =>
            rw [left, right] at decoded
            obtain ⟨rfl, after⟩ := decoded
            cases answer with
            | error error => exact ⟨rfl, after⟩
            | ok group =>
                simp only [after.readRegister]
                split
                · exact ⟨rfl, after.note _ _⟩
                · exact ⟨rfl, after⟩
                · exact ⟨rfl, after.note _ _⟩

theorem writeControl (h : k.Beside a b) (value : Word) :
    k.Both (a.writeControl u value) (b.writeControl u value) := by
  have stored := h.act (t := .control (Control.enableGroup.isSet value)) trivial trivial
  unfold Machine.writeControl
  simp only [h.enabled]
  split
  · exact ⟨rfl, stored⟩
  · exact ⟨rfl, stored.note _ _⟩

theorem writeBank (h : k.Beside a b) (access : Access) (bank : Bank) (f : Word → Word) :
    k.Both (a.writeBank u access bank f) (b.writeBank u access bank f) := by
  unfold Machine.writeBank
  simp only [h.rank?]
  split
  · exact ⟨rfl, h.note _ _⟩
  · split
    · exact ⟨rfl, h⟩
    · exact ⟨rfl, h.act (t := .store u _ _) trivial trivial⟩

theorem writeSetEnable (h : k.Beside a b) {access : Access} {value : Word}
    (outside : ¬ a.Stores k.ref u access.position value .setEnable)
    (present : (b.dist.vcpu? u).isSome = true) :
    k.Both (a.writeSetEnable u access value) (b.writeSetEnable u access value) := by
  unfold Machine.writeSetEnable
  simp only [h.rank?]
  split
  · exact ⟨rfl, h.note _ _⟩
  · rename_i rank found
    have stored := h.act (t := .store u (rankIndex Bank.enable.words access.position)
      fun rank => { rank with enable := rank.enable ||| value }) trivial trivial
    split
    · exact ⟨rfl, stored⟩
    · refine stored.enableMask
        (fun masked => outside ⟨rank, (h.rank? u _).trans found, masked⟩) ?_
      rw [← Distributor.inflight?_isSome] at present ⊢
      simpa only [Machine.dist_modify, Act.apply, Distributor.inflight?_updateRank] using present

theorem writeClearEnable (h : k.Beside a b) {access : Access} {value : Word}
    (outside : ¬ a.Stores k.ref u access.position value .clearEnable) :
    k.Both (a.writeClearEnable u access value) (b.writeClearEnable u access value) := by
  unfold Machine.writeClearEnable
  simp only [h.rank?]
  split
  · exact ⟨rfl, h.note _ _⟩
  · rename_i rank found
    have stored := h.act (t := .store u (rankIndex Bank.enable.words access.position)
      fun rank => { rank with enable := rank.enable &&& ~~~value }) trivial trivial
    split
    · exact ⟨rfl, stored⟩
    · exact stored.disableMask fun masked => outside ⟨rank, (h.rank? u _).trans found, masked⟩

theorem writeRegister (h : k.Beside a b) {access : Access} {value : Word} {register : Register}
    (outside : ¬ a.Stores k.ref u access.position value register)
    (present : (b.dist.vcpu? u).isSome = true) :
    k.Both (a.writeRegister u access value register) (b.writeRegister u access value register) := by
  have noted : ∀ n, k.Both ((.ok (), a.note n) : Result Unit × Machine σ) (.ok (), b.note n) :=
    fun n => ⟨rfl, h.note n n⟩
  cases register with
  | control => exact h.writeControl value
  | setEnable => exact h.writeSetEnable outside present
  | clearEnable => exact h.writeClearEnable outside
  | typeRegister | implementer | zero | setActive | peripheralId => exact noted _
  | setPending | clearPending | clearSoftwarePending | setSoftwarePending =>
      exact ⟨rfl, h.note _ _⟩
  | clearActive => exact h.writeBank access .active _
  | priority => exact h.writeBank access .priority _
  | targets | trigger =>
      unfold Machine.writeRegister
      simp only
      split
      · exact noted _
      · exact h.writeBank access _ _
  | softwareInterrupt => exact h.sendSoftware outside

theorem write (h : k.Beside a b) {offset : Nat} {width : Width} {value : Word}
    (outside : ¬ a.Writes k.ref u offset width value) :
    k.Both (a.write u offset width value) (b.write u offset width value) := by
  unfold Machine.write
  rcases h.requireVcpu_cases u with ⟨e, here, there⟩ | ⟨present, x, y, here, there⟩
  · simp only [here, there]
    exact ⟨rfl, h⟩
  · have decoded := @decode _ _ _ k a b u h offset width
    simp only [here, there]
    cases left : a.decode u offset width with
    | mk answer a' =>
        cases right : b.decode u offset width with
        | mk answer' b' =>
            rw [left, right] at decoded
            obtain ⟨rfl, after⟩ := decoded
            cases answer with
            | error error => exact ⟨rfl, after⟩
            | ok group =>
                obtain ⟨accepts, rfl⟩ := Machine.accepts_of_decode left
                obtain ⟨-, rfl⟩ := Machine.accepts_of_decode right
                refine (h.note _ _).writeRegister (fun stores => outside ?_) present
                exact ⟨(h.present u).trans present, group, accepts, stores⟩

end Accesses

/-! ## Whole operations -/

theorem answer {β : Type} {f : β → Answer} {x y : Result β × Machine σ} (both : k.Both x y) :
    k.Both (Machine.answer f x) (Machine.answer f y) :=
  ⟨by rw [Machine.answer, both.1, Machine.answer], both.2⟩

theorem acknowledge {x y : Result Unit × Machine σ} (both : k.Both x y) :
    k.Both (Machine.acknowledge x) (Machine.acknowledge y) :=
  answer both

/-- An operation that is not about the line answers the same on both sides, unless it looks
at the delivery of the line, and leaves the machines beside each other. -/
theorem perform (h : k.Beside a b) {operation : Operation}
    (outside : ¬ operation.Reaches k.ref a) (clears : operation ≠ .clearPending k.vcpu)
    (frees : operation ≠ .freeVcpu k.vcpu) :
    (¬ operation.Looks k.vcpu k.ref a.dist →
        (a.perform operation).1 = (b.perform operation).1) ∧
      k.Beside (a.perform operation).2 (b.perform operation).2 := by
  have both : ∀ {x y : Result Answer × Machine σ}, k.Both x y →
      (¬ operation.Looks k.vcpu k.ref a.dist → x.1 = y.1) ∧ k.Beside x.2 y.2 :=
    fun same => ⟨fun _ => same.1, same.2⟩
  cases operation with
  | initVcpu u => exact both (acknowledge (h.initVcpu u))
  | freeVcpu u => exact both (acknowledge (h.freeVcpu fun same => frees (by rw [same])))
  | read u offset width signed => exact both (answer (h.read offset width signed))
  | write u offset width value => exact both (acknowledge (h.write outside))
  | readAt u address width signed =>
      refine both (answer ?_)
      unfold Machine.readAt
      rw [h.config]
      split
      · exact ⟨rfl, h⟩
      · exact h.read _ width signed
  | writeAt u address width value =>
      refine both (acknowledge ?_)
      unfold Machine.writeAt
      rw [h.config]
      split
      · exact ⟨rfl, h⟩
      · rename_i offset inside
        exact h.write fun writes => outside ⟨offset, h.config ▸ inside, writes⟩
  | inject u line => exact both (acknowledge (h.inject outside))
  | injectSpi line => exact both (acknowledge (h.injectSpi outside))
  | dispatchSoftware u value =>
      refine both (acknowledge ?_)
      unfold Machine.dispatchSoftware
      rcases h.requireVcpu_cases u with ⟨e, here, there⟩ | ⟨present, x, y, here, there⟩
      · simp only [here, there]
        exact ⟨rfl, h⟩
      · simp only [here, there]
        exact h.sendSoftware fun sends => outside ⟨(h.present u).trans present, sends⟩
  | enableLines u mask rank =>
      refine both (acknowledge ?_)
      unfold Machine.enableLines
      rcases h.requireVcpu_cases u with ⟨e, here, there⟩ | ⟨present, x, y, here, there⟩
      · simp only [here, there]
        exact ⟨rfl, h⟩
      · simp only [here, there]
        exact h.enableMask (fun masked => outside ⟨(h.present u).trans present, masked⟩) present
  | disableLines u mask rank =>
      refine both (acknowledge ?_)
      unfold Machine.disableLines Machine.disableLinesAmid
      rcases h.requireVcpu_cases u with ⟨e, here, there⟩ | ⟨present, x, y, here, there⟩
      · simp only [here, there]
        exact ⟨rfl, h⟩
      · simp only [here, there]
        exact h.disableMask fun masked => outside ⟨(h.present u).trans present, masked⟩
  | clearPending u =>
      exact both (acknowledge (h.clearPending fun same => clears (by rw [same])))
  | setVisible u line visible =>
      exact both (acknowledge (h.updateStatus (.visible visible) outside))
  | setActive u line active =>
      exact both (acknowledge (h.updateStatus (.active active) outside))
  | retire u line => exact both (answer (h.retire outside))
  | routePhysical u line irq => exact both (acknowledge (h.routePhysical irq outside))
  | unroutePhysical u line => exact both (answer (h.unroutePhysical outside))
  | inflightLines u =>
      refine ⟨fun unseen => ?_, h⟩
      have ne : k.vcpu ≠ u := fun same => unseen same.symm
      have lists : a.dist.inflight? u = b.dist.inflight? u := by
        rw [h.dist, Distributor.inflight?_without, if_neg ne]
      have lines : a.dist.inflightLines u = b.dist.inflightLines u := by
        simp only [Distributor.inflight?] at lists
        unfold Distributor.inflightLines Distributor.requireVcpu
        rcases h.vcpu?_cases u with ⟨here, there⟩ | ⟨x, y, here, there⟩
        · rw [here, there]
        · rw [here, there] at lists ⊢
          exact congrArg (fun list => Except.ok (Inflight.lines list)) (Option.some.inj lists)
      simp only [Machine.perform, Machine.answer, lines]
  | pendingStatus u line =>
      refine ⟨fun unseen => ?_, h⟩
      have status : a.dist.statusOf u line = b.dist.statusOf u line := by
        unfold Distributor.statusOf
        simp only [Operation.Looks, h.resolve] at unseen ⊢
        cases resolved : b.dist.resolve u line with
        | error error => rfl
        | ok other =>
            have ne : other ≠ k.ref := fun same => unseen (by rw [resolved, same])
            simp only [Except.map, h.descriptor ne]
      simp only [Machine.perform, Machine.answer, status]

end Beside

end Pairing

end VirtualGic
