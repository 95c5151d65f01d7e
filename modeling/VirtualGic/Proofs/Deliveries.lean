/-
# Proofs.Deliveries — an operation, taken apart at its deliveries

A line is delivered when it is queued on a VCPU or raised again on the VCPU that holds it.
An operation may deliver several lines, one after the other, and do other things in
between. `Deliveries S C m made m'` takes the way from `m` to `m'` apart: each of the
deliveries `made` is a stage `S`, and everything else is quiet. In a quiet stretch no
line is put on a list or marked as raised, and the host is asked about VCPUs at most and
called nothing but what is of the sort `C`.

`Delivery` is the stage that all have in common. It follows one delivery: the line is queued
or raised again and the physical interface told (`Raises`), its holder is woken, and the
processor the holder runs on told if it is another one (`Delivered.wakes`). In a `Vouched`
stage the host has just called the holder online, and in a `Latched` one it has called the
upcall of the holder latched before that. The host of each of these machines is the one of
`m` after all it was asked and called so far, so the answers are those of the operation.

The functions that raise and enable lines are gone through from the smallest up, to the
writes of a register.
-/
import Mathlib.Data.List.Nodup
import VirtualGic.Proofs.Isolation
import VirtualGic.Proofs.Justified
import VirtualGic.Proofs.Waiting

namespace VirtualGic

set_option autoImplicit false

/-! ## Deliveries -/

/-- A line that was delivered, the VCPU that holds it, and the processor that was told to
look again, if one was. -/
structure Delivered where
  ref : LineRef
  holder : Nat
  cpu? : Option Nat
deriving DecidableEq

namespace Delivered

/-- The calls that end a delivery. -/
def wakes (d : Delivered) : List Call :=
  .unblock d.holder :: d.cpu?.toList.map .check

/-- The calls by which a delivery tells the physical interface. -/
def Reports (d : Delivered) : Call → Prop
  | .raise v line _ | .raiseInflight v line => v = d.holder ∧ line = d.ref.number
  | _ => False

theorem filter_wakes (d : Delivered) : d.wakes.filter Call.isWake = d.wakes := by
  obtain ⟨ref, holder, cpu?⟩ := d
  cases cpu? <;> rfl

theorem eq_nil_of_wakes {made : List Delivered} (silent : made.flatMap wakes = []) :
    made = [] := by
  cases made with
  | nil => rfl
  | cons d rest => cases silent

theorem Reports.isWake {d : Delivered} {c : Call} (reports : d.Reports c) :
    c.isWake = false := by
  cases c with
  | unblock | check => exact reports.elim
  | _ => rfl

end Delivered

namespace Machine

variable {σ : Type} [Host σ]

/-- A free line is queued on `holder`, which the host calls online, or a line that `holder`
has is raised again there. -/
inductive Raises (m : Machine σ) (ref : LineRef) (holder : Nat) : Machine σ → Prop
  | queued (free : (m.dist.descriptor ref).owner = none) (up : (m.online holder).1 = true) :
      Raises m ref holder ((m.online holder).2.link holder ref (m.dist.descriptor ref).line
        (m.dist.priorityOf holder (m.dist.descriptor ref).line))
  | again (owned : (m.dist.descriptor ref).owner = some holder) :
      Raises m ref holder (m.retrigger ref (m.dist.descriptor ref).line holder)

/-- A delivery by way of `ready`, where the line waits for its holder to be woken. -/
structure DeliveryBy (m ready m' : Machine σ) (d : Delivered) : Prop where
  raises : m.Raises d.ref d.holder ready
  reports : Makes d.Reports m ready
  waits : ready.dist.Waits d.holder d.ref
  cpu? : d.cpu? = ready.elsewhere d.holder
  dist : m'.dist = ready.dist
  /-- The host is asked where the holder runs before that is woken, and who asks after. -/
  meets : ready.Meets (ready.wake d.holder) m'
  calls : m'.calls = ready.calls ++ d.wakes

/-- One delivery, from its first question to its last wake-up. -/
def Delivery (m : Machine σ) (d : Delivered) (m' : Machine σ) : Prop :=
  ∃ ready, m.DeliveryBy ready m' d

/-- A delivery to a VCPU that the host has just called online. -/
def Vouched (m : Machine σ) (d : Delivered) (m' : Machine σ) : Prop :=
  (m.online d.holder).1 = true ∧
    ∃ b : Machine σ, (b = m ∨ ∃ n, b = (m.online d.holder).2.note n) ∧ b.Delivery d m'

/-- A delivery to a VCPU whose upcall the host has just called latched, and then the VCPU
online. -/
def Latched (m : Machine σ) (d : Delivered) (m' : Machine σ) : Prop :=
  (m.upcallPending d.holder).1 = true ∧ (m.upcallPending d.holder).2.Vouched d m'

end Machine

/-! ## Quiet stretches -/

namespace Distributor

theorem marked_of_map {d d' : Distributor} {f : Descriptor → Descriptor} {ref : LineRef}
    (keeps : ∀ p, (f p).status.queued = true → p.status.queued = true)
    (change : d'.descriptor? ref = (d.descriptor? ref).map f)
    (marked : (d'.descriptor ref).status.queued = true) :
    (d.descriptor ref).status.queued = true := by
  rw [descriptor, change] at marked
  rw [descriptor]
  cases found : d.descriptor? ref with
  | none => rwa [found] at marked
  | some p =>
      rw [found] at marked
      exact keeps p marked

end Distributor

namespace Machine

variable {σ : Type} [Host σ] {C D : Call → Prop} {m m' m'' : Machine σ}

/-- No line is put on a list or marked as raised, and what the host meets with is of one
sort. -/
structure Quiet (C : Call → Prop) (m m' : Machine σ) : Prop where
  calls : Makes C m m'
  listed : ∀ {v entry}, m'.dist.Lists v entry → m.dist.Lists v entry
  marked : ∀ ref, (m'.dist.descriptor ref).status.queued = true →
    (m.dist.descriptor ref).status.queued = true

namespace Quiet

theorem of_same (dist : m'.dist = m.dist) (makes : Makes C m m') : Quiet C m m' :=
  ⟨makes, fun listed => dist ▸ listed, fun _ marked => dist ▸ marked⟩

theorem refl (m : Machine σ) : Quiet C m m :=
  .of_same rfl (.refl m)

theorem trans (first : Quiet C m m') (second : Quiet C m' m'') : Quiet C m m'' :=
  ⟨first.calls.trans second.calls, fun listed => first.listed (second.listed listed),
    fun ref marked => first.marked ref (second.marked ref marked)⟩

theorem mono (within : ∀ c, C c → D c) (quiet : Quiet C m m') : Quiet D m m' :=
  ⟨quiet.calls.mono within, quiet.listed, quiet.marked⟩

theorem note (m : Machine σ) (n : Note) : Quiet C m (m.note n) :=
  .of_same rfl (.note m n)

theorem updateLine (m : Machine σ) (ref : LineRef) {f : Descriptor → Descriptor}
    (keeps : ∀ p, (f p).status.queued = true → p.status.queued = true) :
    Quiet C m (m.modify (·.updateLine ref f)) := by
  refine ⟨.modify m _, fun listed => ?_, fun other marked => ?_⟩
  · exact (Distributor.lists_of_inflight? (Distributor.inflight?_updateLine ..)).1 listed
  · have shown := Distributor.descriptor?_updateLine m.dist ref f other
    split at shown
    · exact Distributor.marked_of_map keeps shown marked
    · rwa [dist_modify, Distributor.descriptor, shown] at marked

end Quiet

end Machine

namespace Act

/-- Acts that neither queue a line nor raise one again. -/
def Calms : Act → Prop
  | retrigger .. | link .. => False
  | _ => True

variable {a : Act} {d : Distributor}

theorem Idles.calms (idles : a.Idles) : a.Calms := by
  cases a <;> trivial

theorem Disables.calms {S : LineRef → Prop} (disables : a.Disables S) : a.Calms := by
  cases a <;> trivial

theorem Calms.lists (calms : a.Calms) (allowed : a.Allowed d) {v : Nat} {entry : Entry}
    (lists : (a.apply d).Lists v entry) : d.Lists v entry := by
  cases a with
  | retrigger | link => exact calms.elim
  | enable | keep =>
      exact (Distributor.lists_of_inflight? (Distributor.inflight?_updateLine ..)).1 lists
  | allocate w vcpu =>
      obtain ⟨-, -, capacity, -, created⟩ := allowed
      obtain ⟨list, found, member⟩ := lists
      rw [apply, Distributor.inflight?_setVcpu] at found
      split at found
      · obtain rfl := Option.some.inj found
        rw [(Vcpu.idle_of_create created).2.2] at member
        cases member
      · exact ⟨list, found, member⟩
  | _ => exact Shrinks.lists (by trivial) lists

theorem Calms.marked (calms : a.Calms) (allowed : a.Allowed d) {ref : LineRef}
    (marked : ((a.apply d).descriptor ref).status.queued = true) :
    (d.descriptor ref).status.queued = true := by
  have same : (a.apply d).descriptor? ref = d.descriptor? ref →
      (d.descriptor ref).status.queued = true := fun same => by
    rwa [Distributor.descriptor, same] at marked
  have changed : ∀ {target : LineRef} {f : Descriptor → Descriptor},
      a.change? = some (target, f) →
      (∀ p, (f p).status.queued = true → p.status.queued = true) →
      (d.descriptor ref).status.queued = true := by
    intro target f change keeps
    have shown := descriptor?_apply_of_change? (d := d) change ref
    split at shown
    · exact Distributor.marked_of_map keeps shown marked
    · exact same shown
  cases a with
  | retrigger | link => exact calms.elim
  | ask | note | call | control | store => exact same (Registers.descriptor?_apply (by trivial) ref)
  | touch target report =>
      refine changed rfl fun p => ?_
      cases report with
      | visible shown => cases shown <;> simp [Report.apply, Descriptor.setVisible]
      | _ => exact id
  | enable target => exact changed (f := Descriptor.setEnabled true) rfl fun p => id
  | keep v target => exact changed (f := Descriptor.complete) rfl fun p => id
  | unlink v target => exact changed rfl fun p => by simp [Status.settled]
  | clear v =>
      cases held : d.inflight? v with
      | none => rwa [apply, Distributor.dropInflight_of_none held] at marked
      | some list =>
          have shown := Distributor.descriptor?_dropInflight held ref
          split at shown
          · exact Distributor.marked_of_map (fun p => by simp [Status.settled]) shown marked
          · exact same shown
  | allocate v vcpu =>
      obtain ⟨-, -, capacity, -, created⟩ := allowed
      cases ref with
      | shared index => exact marked
      | banked u line =>
          rw [Distributor.descriptor, apply, Distributor.descriptor?_setVcpu_banked] at marked
          split at marked
          · rw [Option.map_some, Option.getD_some, (Vcpu.idle_of_create created).2.1] at marked
            cases marked
          · exact marked
  | release v =>
      cases ref with
      | shared index => exact marked
      | banked u line =>
          rw [Distributor.descriptor, apply, Distributor.descriptor?_setVcpu_banked] at marked
          split at marked
          · cases marked
          · exact marked

end Act

namespace Machine

variable {σ : Type} [Host σ] {C : Call → Prop} {m m' : Machine σ}

/-- A course of acts that deliver nothing is quiet. -/
theorem Quiet.of_steps {K : Act → Prop} (steps : Steps K m m') (calms : ∀ a, K a → a.Calms)
    (makes : Makes C m m') : Quiet C m m' := by
  have kept := steps.kept (P := fun s =>
    (∀ {v entry}, s.dist.Lists v entry → m.dist.Lists v entry) ∧
      ∀ ref, (s.dist.descriptor ref).status.queued = true →
        (m.dist.descriptor ref).status.queued = true) ?_ ⟨id, fun _ => id⟩
  · exact ⟨makes, kept.1, kept.2⟩
  · rintro s a s' kind step ⟨listed, marked⟩
    rw [step.dist]
    exact ⟨fun lists => listed ((calms a kind).lists step.allowed lists),
      fun ref queued => marked ref ((calms a kind).marked step.allowed queued)⟩

/-! ## Stages and quiet stretches -/

/-- The way from `m` is made of quiet stretches and of the deliveries `made`, in this
order. -/
inductive Deliveries (S : Machine σ → Delivered → Machine σ → Prop) (C : Call → Prop)
    (m : Machine σ) : List Delivered → Machine σ → Prop
  | start : Deliveries S C m [] m
  | quiet {made : List Delivered} {b c : Machine σ} :
      Deliveries S C m made b → Quiet C b c → Deliveries S C m made c
  | stage {made : List Delivered} {b c : Machine σ} {d : Delivered} :
      Deliveries S C m made b → S b d c → Deliveries S C m (made ++ [d]) c

/-- Some lines in `T` are delivered, none of them twice. -/
def Delivering (S : Machine σ → Delivered → Machine σ → Prop) (C : Call → Prop)
    (T : LineRef → Prop) (m m' : Machine σ) : Prop :=
  ∃ made, Deliveries S C m made m' ∧ (made.map (·.ref)).Nodup ∧ ∀ d ∈ made, T d.ref

variable {S S' : Machine σ → Delivered → Machine σ → Prop} {D : Call → Prop}
  {T U : LineRef → Prop} {m'' : Machine σ} {made made' : List Delivered}

namespace Deliveries

theorem trans (first : Deliveries S C m made m') (second : Deliveries S C m' made' m'') :
    Deliveries S C m (made ++ made') m'' := by
  induction second with
  | start => rwa [List.append_nil]
  | quiet _ still ih => exact ih.quiet still
  | stage _ one ih =>
      rw [← List.append_assoc]
      exact ih.stage one

/-- Stages that are longer than they need to be begin with a quiet stretch. -/
theorem refine (within : ∀ c, C c → D c)
    (shorter : ∀ b d c, S b d c → ∃ b', Quiet D b b' ∧ S' b' d c)
    (deliveries : Deliveries S C m made m') : Deliveries S' D m made m' := by
  induction deliveries with
  | start => exact .start
  | quiet _ still ih => exact ih.quiet (still.mono within)
  | stage _ one ih =>
      obtain ⟨b', still, one⟩ := shorter _ _ _ one
      exact (ih.quiet still).stage one

theorem mono (within : ∀ c, C c → D c) (deliveries : Deliveries S C m made m') :
    Deliveries S D m made m' :=
  deliveries.refine within fun b _ _ one => ⟨b, .refl b, one⟩

end Deliveries

namespace Delivering

theorem of_quiet (quiet : Quiet C m m') : Delivering S C T m m' :=
  ⟨[], .quiet .start quiet, List.nodup_nil, by simp⟩

theorem of_stage {d : Delivered} (one : S m d m') (inside : T d.ref) :
    Delivering S C T m m' :=
  ⟨[d], .stage .start one, List.pairwise_singleton _ _,
    fun _ member => List.mem_singleton.1 member ▸ inside⟩

theorem mono (calls : ∀ c, C c → D c) (lines : ∀ ref, T ref → U ref)
    (delivering : Delivering S C T m m') : Delivering S D U m m' := by
  obtain ⟨made, deliveries, distinct, inside⟩ := delivering
  exact ⟨made, deliveries.mono calls, distinct, fun d member => lines _ (inside d member)⟩

/-- Stages may be longer than what is asked of them. -/
theorem refine (shorter : ∀ b d c, S b d c → ∃ b', Quiet C b b' ∧ S' b' d c)
    (delivering : Delivering S C T m m') : Delivering S' C T m m' := by
  obtain ⟨made, deliveries, rest⟩ := delivering
  exact ⟨made, deliveries.refine (fun _ sort => sort) shorter, rest⟩

/-- Different lines are delivered one after the other. -/
theorem trans (apart : ∀ ref, T ref → ¬ U ref) (first : Delivering S C T m m')
    (second : Delivering S C U m' m'') : Delivering S C (fun ref => T ref ∨ U ref) m m'' := by
  obtain ⟨made, deliveries, distinct, inside⟩ := first
  obtain ⟨made', deliveries', distinct', inside'⟩ := second
  refine ⟨made ++ made', deliveries.trans deliveries', ?_, ?_⟩
  · rw [List.map_append, List.nodup_append]
    refine ⟨distinct, distinct', ?_⟩
    rintro _ member _ member' rfl
    obtain ⟨d, here, rfl⟩ := List.mem_map.1 member
    obtain ⟨d', there, same⟩ := List.mem_map.1 member'
    exact apart _ (inside d here) (same ▸ inside' d' there)
  · intro d member
    exact (List.mem_append.1 member).imp (inside d) (inside' d)

theorem quiet_then (still : Quiet C m m') (second : Delivering S C T m' m'') :
    Delivering S C T m m'' := by
  obtain ⟨made, deliveries, rest⟩ := second
  exact ⟨made, by simpa using (Deliveries.quiet .start still).trans deliveries, rest⟩

theorem then_quiet (first : Delivering S C T m m') (still : Quiet C m' m'') :
    Delivering S C T m m'' := by
  obtain ⟨made, deliveries, rest⟩ := first
  exact ⟨made, deliveries.quiet still, rest⟩

/-- Rounds over different items that deliver different lines. -/
theorem foldl {α : Type} {L : α → LineRef → Prop} {P : Machine σ → Prop}
    {f : Machine σ → α → Machine σ} {xs : List α} (distinct : xs.Nodup)
    (apart : ∀ x y ref, L x ref → L y ref → x = y)
    (round : ∀ m x, P m → Delivering S C (L x) m (f m x)) (keep : ∀ m x, P m → P (f m x))
    (m : Machine σ) (start : P m) :
    Delivering S C (fun ref => ∃ x ∈ xs, L x ref) m (xs.foldl f m) := by
  induction xs generalizing m with
  | nil => exact .of_quiet (.refl m)
  | cons x rest ih =>
      obtain ⟨fresh, distinct⟩ := List.nodup_cons.1 distinct
      refine ((round m x start).trans ?_ (ih distinct (f m x) (keep m x start))).mono
        (fun _ sort => sort) ?_
      · rintro ref here ⟨y, member, there⟩
        exact fresh (apart x y ref here there ▸ member)
      · rintro ref (here | ⟨y, member, there⟩)
        · exact ⟨x, List.mem_cons_self, here⟩
        · exact ⟨y, List.mem_cons_of_mem x member, there⟩

end Delivering

/-! ## One delivery -/

theorem meets_notify (m : Machine σ) (line holder : Nat) :
    Meets (m.wake holder) m (m.notify line holder) := by
  obtain ⟨host, calls⟩ := meets_kick (m.note (.lineInflight line holder)) holder
  rw [calls_note] at calls
  exact ⟨host, calls⟩

/-- A delivery ends by waking the holder of the line. -/
theorem Delivery.of_ready {m ready : Machine σ} {ref : LineRef} {holder : Nat}
    (raises : m.Raises ref holder ready)
    (reports : Makes (Delivered.mk ref holder (ready.elsewhere holder)).Reports m ready)
    (waits : ready.dist.Waits holder ref) (line : Nat) :
    m.Delivery ⟨ref, holder, ready.elsewhere holder⟩ (ready.notify line holder) := by
  have meets := meets_notify ready line holder
  refine ⟨ready, raises, reports, waits, rfl, dist_notify ready line holder, meets, ?_⟩
  rw [meets.calls, wake_calls]
  rfl

theorem reports_link (m : Machine σ) {d : Delivered} {v line : Nat} (holder : v = d.holder)
    (number : line = d.ref.number) (priority : Byte) :
    Makes d.Reports m (m.link v d.ref line priority) := by
  have claimed : Makes d.Reports m (m.modify (·.updateLine d.ref (Descriptor.claim v priority))) :=
    .modify m _
  unfold link
  simp only
  split
  · exact (claimed.trans (makes_call _ (.raise v line priority) ⟨holder, number⟩)).trans
      (.modify _ _)
  · exact claimed.trans (.modify _ _)

/-- A free line is delivered to the VCPU it is raised on, if that is online. -/
theorem delivery_of_free {m : Machine σ} (consistent : Consistent m.dist) {v : Nat} {ref : LineRef}
    (seen : ref.SeenBy v) (there : (m.dist.descriptor? ref).isSome = true)
    (present : (m.dist.vcpu? v).isSome = true) (free : (m.dist.descriptor ref).owner = none)
    (up : (m.online v).1 = true) : ∃ cpu?, m.Delivery ⟨ref, v, cpu?⟩ (m.deliver [] v ref) := by
  obtain ⟨p, found⟩ := Option.isSome_iff_exists.1 there
  have number : (m.dist.descriptor ref).line = ref.number := by
    rw [Distributor.descriptor_of_eq_some found, consistent.numbered found]
  have step : Step (m.online v).2 _ ((m.online v).2.link v ref (m.dist.descriptor ref).line
      (m.dist.priorityOf v (m.dist.descriptor ref).line)) :=
    step_link (m.online v).2 there seen present free
  rw [deliver_of_free free, if_pos up]
  refine ⟨_, .of_ready (.queued free up) ?_ ?_ _⟩
  · exact Makes.trans (makes_online m v) (reports_link (d := ⟨ref, v, _⟩) _ rfl number _)
  · have linked := Act.descriptor?_apply_of_change? (d := m.dist)
      (a := .link v ref (m.dist.priorityOf v (m.dist.descriptor ref).line)) rfl ref
    rw [if_pos rfl, found] at linked
    rw [step.dist]
    exact Distributor.waits_of_owner (consistent.apply step.allowed) linked rfl rfl

/-- A line that is held is delivered to its holder. -/
theorem delivery_of_held {m : Machine σ} (consistent : Consistent m.dist) {v holder : Nat}
    {ref : LineRef} (owned : (m.dist.descriptor ref).owner = some holder) :
    ∃ cpu?, m.Delivery ⟨ref, holder, cpu?⟩ (m.deliver [] v ref) := by
  have found := Distributor.descriptor?_of_owner owned
  have step := step_retrigger m owned
  rw [deliver_of_held owned (consistent.owned found owned).2.present]
  refine ⟨_, .of_ready (.again owned) ?_ ?_ _⟩
  · exact (Makes.modify m _).trans (makes_call _ _ ⟨rfl, consistent.numbered found⟩)
  · have raised := Act.descriptor?_apply_of_change? (d := m.dist) (a := .retrigger holder ref) rfl ref
    rw [if_pos rfl, found] at raised
    rw [step.dist]
    exact Distributor.waits_of_owner (consistent.apply step.allowed) raised owned rfl

/-- A line that is raised on an offline VCPU is dropped, and nobody hears of it. -/
theorem deliver_of_offline {m : Machine σ} {v : Nat} {ref : LineRef}
    (free : (m.dist.descriptor ref).owner = none) (down : (m.online v).1 = false) :
    (m.deliver [] v ref).dist = m.dist ∧ (m.deliver [] v ref).calls = m.calls := by
  rw [deliver_of_free free, if_neg (by simp [down])]
  exact ⟨rfl, calls_note (m.online v).2 _⟩

theorem makes_deliver_of_offline {m : Machine σ} {v : Nat} {ref : LineRef}
    (free : (m.dist.descriptor ref).owner = none) (down : (m.online v).1 = false) :
    Makes C m (m.deliver [] v ref) := by
  rw [deliver_of_free free, if_neg (by simp [down])]
  exact (makes_online m v).trans (.note _ _)

theorem quiet_deliver_of_offline {m : Machine σ} {v : Nat} {ref : LineRef}
    (free : (m.dist.descriptor ref).owner = none) (down : (m.online v).1 = false) :
    Quiet C m (m.deliver [] v ref) :=
  .of_same (deliver_of_offline free down).1 (makes_deliver_of_offline free down)

/-- Raising a line delivers it to a VCPU that sees it, or drops it. -/
theorem delivery_or_quiet {m : Machine σ} (consistent : Consistent m.dist) {v : Nat}
    {ref : LineRef} (seen : ref.SeenBy v) (there : (m.dist.descriptor? ref).isSome = true)
    (present : (m.dist.vcpu? v).isSome = true) :
    (∃ holder cpu?, ref.SeenBy holder ∧ m.Delivery ⟨ref, holder, cpu?⟩ (m.deliver [] v ref)) ∨
      Quiet C m (m.deliver [] v ref) := by
  cases owner : (m.dist.descriptor ref).owner with
  | none =>
      cases up : (m.online v).1 with
      | true =>
          obtain ⟨cpu?, one⟩ := delivery_of_free consistent seen there present owner up
          exact .inl ⟨v, cpu?, seen, one⟩
      | false => exact .inr (quiet_deliver_of_offline owner up)
  | some holder =>
      have held := (consistent.owned (Distributor.descriptor?_of_owner owner) owner).1
      obtain ⟨cpu?, one⟩ := delivery_of_held consistent owner
      exact .inl ⟨holder, cpu?, held, one⟩

/-! ## Raising lines by number -/

/-- An injection delivers its line to the VCPU that holds it, or else to the one it names if
that is online. -/
theorem delivery_inject {m : Machine σ} (consistent : Consistent m.dist) {v line : Nat}
    {ref : LineRef} (resolved : m.dist.resolve v line = .ok ref)
    (reaches : (m.dist.descriptor ref).owner = none → (m.online v).1 = true) :
    ∃ cpu?, m.Delivery ⟨ref, (m.dist.descriptor ref).owner.getD v, cpu?⟩ (m.inject v line).2 := by
  obtain ⟨present, -, seen, there⟩ := Distributor.found_of_resolve resolved
  rw [inject_of_resolve resolved]
  cases owner : (m.dist.descriptor ref).owner with
  | none => exact delivery_of_free consistent seen there present owner (reaches owner)
  | some holder => exact delivery_of_held consistent owner

theorem delivering_inject {m : Machine σ} (consistent : Consistent m.dist) (v line : Nat) :
    Delivering Delivery C (LineRef.Named v [line]) m (m.inject v line).2 := by
  unfold inject injectAmid
  split
  · exact .of_quiet (.refl m)
  · rename_i ref resolved
    obtain ⟨present, -, seen, there⟩ := Distributor.found_of_resolve resolved
    have named : ref.Named v [line] := .of_resolve resolved
    rcases delivery_or_quiet consistent seen there present with ⟨holder, cpu?, -, one⟩ | still
    · exact .of_stage one named
    · exact .of_quiet still

theorem delivering_injectSpi {m : Machine σ} (consistent : Consistent m.dist) (line : Nat) :
    Delivering Delivery C (·.number = line) m (m.injectSpi line).2 := by
  have refl : Delivering Delivery C (·.number = line) m m := .of_quiet (.refl m)
  unfold injectSpi
  split
  · exact refl
  · split
    · exact refl
    · split
      · exact refl
      · split
        · exact refl
        · rename_i mask _
          have found := dist_firstOnline m (SetBits.mk (mask.setWidth 32)).toList
          have asked : Quiet C m _ := .of_same found (makes_firstOnline m _)
          refine .quiet_then asked ((delivering_inject (found ▸ consistent) _ line).mono
            (fun _ sort => sort) ?_)
          rintro ref ⟨-, member⟩
          exact List.mem_singleton.1 member

/-! ## Software interrupts -/

/-- A software interrupt is delivered to a target that the host calls online. -/
theorem delivering_sendTo {m : Machine σ} (consistent : Consistent m.dist) (v : Nat) (value : Word)
    (target : Nat) :
    Delivering Vouched C
      (LineRef.Named target [(SoftwareInterrupt.line.read value).toNat]) m
      (sendTo v value m target) := by
  unfold sendTo
  split
  · exact .of_quiet (.note m _)
  · rename_i state found
    have present : (m.dist.vcpu? target).isSome = true := Option.isSome_iff_exists.2 ⟨state, found⟩
    simp only
    split
    · rename_i up
      split
      · exact .of_quiet (.of_same rfl (makes_online m target))
      · rename_i ref looked
        have named : ref.Named target [(SoftwareInterrupt.line.read value).toNat] :=
          .of_lineRef? looked List.mem_cons_self
        obtain ⟨number, seen, present'⟩ := Distributor.lineRef?_eq_some_iff.1 looked
        have there : (m.dist.descriptor? ref).isSome = true := present'
        have low : ref.number < linesPerRank := number ▸ SoftwareInterrupt.line_lt value
        have noted : Quiet C m ((m.online target).2.note
            (.softwareInterrupt (SoftwareInterrupt.line.read value).toNat v target)) :=
          .of_same rfl ((makes_online m target).trans (.note _ _))
        generalize made : (m.online target).2.note _ = b at noted ⊢
        have dist : b.dist = m.dist := made ▸ rfl
        rw [← dist] at consistent there present
        rcases delivery_or_quiet consistent seen there present with ⟨holder, cpu?, held, one⟩ | still
        -- The host was asked about the target. That is the holder, since the line is private.
        · obtain rfl := LineRef.eq_of_private low held seen
          exact .of_stage ⟨up, b, .inr ⟨_, made.symm⟩, one⟩ named
        · exact .of_quiet (noted.trans still)
    · exact .of_quiet (.of_same rfl ((makes_online m target).trans (.note _ _)))

/-- A software interrupt reaches each of its targets at most once. -/
theorem delivering_sendSoftware {m : Machine σ} (consistent : Consistent m.dist) (v : Nat)
    (value : Word) :
    Delivering Vouched C (·.number = (SoftwareInterrupt.line.read value).toNat) m
      (m.sendSoftware v value).2 := by
  unfold sendSoftware
  split
  · exact .of_quiet (.note m _)
  · rename_i choice _
    have dist := (steps_softwareTargets m v value choice).dist_of_idles
    have selected : Quiet C m (m.softwareTargets v value choice).2 :=
      .of_same dist (makes_softwareTargets m v value choice)
    simp only
    split
    · exact .of_quiet selected
    · have sent := Delivering.foldl (S := Vouched) (C := C) (P := fun s => Consistent s.dist)
        (L := fun target => LineRef.Named target [(SoftwareInterrupt.line.read value).toNat])
        (f := sendTo v value) (nodup_softwareTargets m v value choice) ?_
        (fun s target before => delivering_sendTo before v value target)
        (fun s target before => (steps_sendTo v value s target).consistent before)
        (m.softwareTargets v value choice).2 (dist ▸ consistent)
      · refine .quiet_then selected (sent.mono (fun _ sort => sort) ?_)
        rintro ref ⟨target, -, -, number⟩
        exact List.mem_singleton.1 number
      · rintro target target' ref ⟨seen, number⟩ ⟨seen', -⟩
        have low : ref.number < linesPerRank :=
          List.mem_singleton.1 number ▸ SoftwareInterrupt.line_lt value
        exact LineRef.eq_of_private low seen seen'

end Machine

/-! ## Enabling lines -/

/-- The calls by which lines are shown that are inflight already. -/
def Call.Shows : Call → Prop
  | raise .. | enablePhysical _ => True
  | _ => False

namespace Machine

variable {σ : Type} [Host σ]

theorem quiet_raiseHidden (m : Machine σ) (ref : LineRef) :
    Quiet Call.Shows m (m.raiseHidden ref) := by
  refine .of_same (dist_raiseHidden m ref) ?_
  unfold raiseHidden
  simp only
  split
  · exact .refl m
  · split
    · exact makes_call m _ trivial
    · exact .refl m

theorem quiet_enablePhysical (m : Machine σ) (ref : LineRef) :
    Quiet Call.Shows m (m.enablePhysical ref) := by
  refine .of_same (steps_enablePhysical m ref).dist_of_idles ?_
  unfold enablePhysical
  split
  · exact .refl m
  · exact makes_call m _ trivial

/-- The event-channel line is delivered if its upcall is latched and it is free. -/
theorem delivering_showEnabled {m : Machine σ} (consistent : Consistent m.dist) {v : Nat}
    {ref : LineRef} (line : Nat) (seen : ref.SeenBy v)
    (there : (m.dist.descriptor? ref).isSome = true) (present : (m.dist.vcpu? v).isSome = true) :
    Delivering Latched Call.Shows (fun r => r = ref ∧ line = m.dist.config.upcallLine) m
      (m.showEnabled v line ref) := by
  unfold showEnabled
  split
  · rename_i upcall
    have asked : Quiet Call.Shows m (m.upcallPending v).2 :=
      .of_same rfl (makes_upcallPending m v)
    simp only
    split
    · rename_i ready
      simp only [Bool.and_eq_true, Bool.not_eq_true', Descriptor.isInflight,
        Option.isSome_eq_false_iff, Option.isNone_iff_eq_none] at ready
      obtain ⟨latched, free⟩ := ready
      cases up : ((m.upcallPending v).2.online v).1 with
      | true =>
          obtain ⟨cpu?, one⟩ := delivery_of_free (m := (m.upcallPending v).2) consistent seen there
            present free up
          exact .of_stage (d := ⟨ref, v, cpu?⟩) ⟨latched, up, _, .inl rfl, one⟩ ⟨rfl, upcall⟩
      | false => exact .of_quiet (asked.trans (quiet_deliver_of_offline free up))
    · exact .of_quiet (asked.trans (quiet_raiseHidden _ ref))
  · exact .of_quiet (quiet_raiseHidden m ref)

theorem delivering_enableLine {m : Machine σ} (consistent : Consistent m.dist) {v : Nat}
    (line : Nat) (present : (m.dist.vcpu? v).isSome = true) :
    Delivering Latched Call.Shows
      (fun ref => ref.Named v [line] ∧ ref.number = m.dist.config.upcallLine) m
      (enableLine v m line) := by
  unfold enableLine
  split
  · exact .of_quiet (.refl m)
  · rename_i ref found
    obtain ⟨number, seen, there⟩ := Distributor.lineRef?_eq_some_iff.1 found
    have enabled : Quiet Call.Shows m
        (m.modify (·.updateLine ref (Descriptor.setEnabled true))) := .updateLine m ref fun _ => id
    have settings : (m.dist.updateLine ref (Descriptor.setEnabled true)).config = m.dist.config :=
      congrArg (·.1) (m.dist.shape_updateLine ref _)
    have shown := delivering_showEnabled
      (m := m.modify (·.updateLine ref (Descriptor.setEnabled true)))
      (consistent.updateLine ref fun _ => rfl) line seen
      (by simpa [Distributor.descriptor?_updateLine_self] using there)
      (by simpa [vcpu?_isSome_updateLine] using present)
    refine (Delivering.quiet_then enabled (shown.mono (fun _ sort => sort) ?_)).then_quiet
      (quiet_enablePhysical _ ref)
    rintro _ ⟨rfl, upcall⟩
    exact ⟨.of_lineRef? found List.mem_cons_self, number.trans (upcall.trans
      (congrArg Config.upcallLine settings))⟩

end Machine

theorem nodup_maskedLines {rank : Nat} {mask : Word} {lines : List Nat}
    (fits : maskedLines rank mask = .ok lines) : lines.Nodup := by
  unfold maskedLines at fits
  split at fits
  · cases fits
  · injection fits with same
    subst same
    refine List.Nodup.map_on ?_ (SetBits.nodup_toList _)
    intro bit member bit' member' same
    have small : bit < 32 := BitVec.lt_of_getLsbD (SetBits.mem_toList_iff.1 member)
    have small' : bit' < 32 := BitVec.lt_of_getLsbD (SetBits.mem_toList_iff.1 member')
    simp only [linesPerRank, range32] at same
    omega

namespace Machine

variable {σ : Type} [Host σ]

/-- Of the lines of a mask, none but that of the upcall is delivered. -/
theorem delivering_enableMask {m : Machine σ} (consistent : Consistent m.dist) {v : Nat}
    (mask : Word) (rank : Nat) (present : (m.dist.vcpu? v).isSome = true) :
    Delivering Latched Call.Shows
      (fun ref => ref.Masked v mask rank ∧ ref.number = m.dist.config.upcallLine) m
      (m.enableMask v mask rank).2 := by
  unfold enableMask
  split
  · exact .of_quiet (.refl m)
  · rename_i lines fits
    -- The settings are carried along, as every round looks up the line of the upcall anew.
    have rounds := Delivering.foldl (S := Latched) (C := Call.Shows)
      (P := fun s => Consistent s.dist ∧ (s.dist.vcpu? v).isSome = true ∧
        s.dist.config = m.dist.config)
      (L := fun line ref => ref.Named v [line] ∧ ref.number = m.dist.config.upcallLine)
      (f := enableLine v) (nodup_maskedLines fits) ?_ ?_ ?_ m ⟨consistent, present, rfl⟩
    · refine rounds.mono (fun _ sort => sort) ?_
      rintro ref ⟨line, member, ⟨seen, number⟩, upcall⟩
      obtain rfl := List.mem_singleton.1 number
      exact ⟨⟨lines, fits, seen, member⟩, upcall⟩
    · rintro line line' ref ⟨⟨-, number⟩, -⟩ ⟨⟨-, number'⟩, -⟩
      exact (List.mem_singleton.1 number).symm.trans (List.mem_singleton.1 number')
    · rintro s line ⟨consistent, present, settings⟩
      rw [← settings]
      exact delivering_enableLine consistent line present
    · rintro s line ⟨consistent, present, settings⟩
      have steps := steps_enableLine s line present
      refine ⟨steps.consistent consistent, present_of_steps ?_ steps present,
        (congrArg (·.1) steps.shape).trans settings⟩
      intro a kind
      cases a <;> trivial

theorem delivering_writeSetEnable {m : Machine σ} (consistent : Consistent m.dist) {v : Nat}
    (access : Access) (value : Word) (present : (m.dist.vcpu? v).isSome = true) :
    Delivering Latched Call.Shows
      (fun ref => ref.Masked v value (rankIndex Bank.enable.words access.position) ∧
        ref.number = m.dist.config.upcallLine) m (m.writeSetEnable v access value).2 := by
  unfold writeSetEnable
  simp only
  split
  · exact .of_quiet (.note m _)
  · rename_i rank found
    have step : Step m (.store v (rankIndex Bank.enable.words access.position) _)
        (m.modify (·.updateRank v (rankIndex Bank.enable.words access.position)
          fun rank => { rank with enable := rank.enable ||| value })) :=
      ⟨trivial, rfl, (List.append_nil _).symm⟩
    have stored : Quiet Call.Shows m _ :=
      .of_steps (.single step (K := fun a => a.Calms) trivial) (fun _ => id) (.modify m _)
    have settings := congrArg (·.1) (m.dist.shape_updateRank v
      (rankIndex Bank.enable.words access.position)
        fun rank => { rank with enable := rank.enable ||| value })
    split
    · exact .of_quiet stored
    · rename_i nonzero
      refine .quiet_then stored ((delivering_enableMask
        (step.dist ▸ consistent.apply step.allowed) _ _ ?_).mono (fun _ sort => sort) ?_)
      · rw [← Distributor.inflight?_isSome] at present ⊢
        rwa [dist_modify, Distributor.inflight?_updateRank]
      · rintro ref ⟨masked, upcall⟩
        refine ⟨masked.mono (fun bit set => ?_) nonzero,
          upcall.trans (congrArg Config.upcallLine settings)⟩
        exact (Bool.and_eq_true_iff.1 (BitVec.getLsbD_and ▸ set)).1

end Machine

end VirtualGic
