/-
# Proofs.Calls — what each operation asks and calls

Collaborators learn of an operation only by the calls it makes, and the host besides by what
it is asked. `Machine.Meets contacts m m'` says that between `m` and `m'` the host was asked and
called what `contacts` lists, in this order: its state after them is what it was made by
them from its state before. `Machine.Makes C m m'` says that there are such contacts, all
calls among them of the sort `C`, and that nobody asked for a processor unless `C` has calls
to wake somebody.

The functions of the program are gone through from the smallest up; `Operation.MayCall` is
what each operation may call in the end, and `perform_makes` that it calls nothing else.

A line is raised again only where it is raised by itself: enabling the line of the upcall
raises it only if it is free, so it never makes `raiseInflight`.
-/
import VirtualGic.Proofs.Access

namespace VirtualGic

set_option autoImplicit false

/-! ## Sorts of calls -/

namespace Call

/-- The calls by which a free line is claimed and its holder is woken. -/
def Claims : Call → Prop
  | raise .. | unblock _ | check _ => True
  | _ => False

/-- The calls by which a line is raised, for the first time or again. -/
def Delivers : Call → Prop
  | raise .. | raiseInflight .. | unblock _ | check _ => True
  | _ => False

/-- The calls by which a line is enabled. -/
def Enables : Call → Prop
  | raise .. | unblock _ | check _ | enablePhysical _ => True
  | _ => False

/-- The calls by which a line is disabled. -/
def Disables : Call → Prop
  | remove .. | disablePhysical _ => True
  | _ => False

theorem Claims.of_isWake {c : Call} (wakes : c.isWake = true) : c.Claims := by
  cases c with
  | unblock | check => trivial
  | _ => cases wakes

theorem Claims.delivers {c : Call} (claims : c.Claims) : c.Delivers := by
  cases c <;> trivial

theorem Claims.enables {c : Call} (claims : c.Claims) : c.Enables := by
  cases c <;> trivial

end Call

/-! ## What a host meets with -/

/-- A question that a host answers, or a call that it reacts to. -/
inductive Contact where
  | online (v : Nat)
  | running (v : Nat)
  | currentCpu
  | upcallPending (v : Nat)
  | call (made : Call)
deriving DecidableEq

namespace Contact

/-- The call that a contact is. -/
def call? : Contact → Option Call
  | call made => some made
  | _ => none

/-- What becomes of a host by a contact. -/
def change {σ : Type} [Host σ] (host : σ) : Contact → σ
  | online v => (Host.online host v).2
  | running v => (Host.running host v).2
  | currentCpu => (Host.currentCpu host).2
  | upcallPending v => (Host.upcallPending host v).2
  | call made => Host.react host made

/-- Contacts whose calls are of one sort. Processors are asked for only if there may be
somebody to wake. -/
def Within (C : Call → Prop) : Contact → Prop
  | call made => C made
  | running _ | currentCpu => ∃ c, c.isWake = true ∧ C c
  | _ => True

theorem Within.mono {C D : Call → Prop} (within : ∀ c, C c → D c) {contact : Contact}
    (inside : contact.Within C) : contact.Within D := by
  cases contact with
  | call made => exact within made inside
  | running | currentCpu =>
      obtain ⟨c, wakes, sort⟩ := inside
      exact ⟨c, wakes, within c sort⟩
  | online | upcallPending => trivial

end Contact

namespace Machine

variable {σ : Type} [Host σ] {C D : Call → Prop} {m m' m'' : Machine σ}

/-- Between two states of a machine, the host meets with some contacts, one after the other. -/
structure Meets (contacts : List Contact) (m m' : Machine σ) : Prop where
  host : m'.host = contacts.foldl Contact.change m.host
  calls : m'.calls = m.calls ++ contacts.filterMap Contact.call?

/-- Between two states of a machine, the host meets with calls of one sort only. -/
def Makes (C : Call → Prop) (m m' : Machine σ) : Prop :=
  ∃ contacts, Meets contacts m m' ∧ ∀ contact ∈ contacts, contact.Within C

namespace Meets

variable {contacts more : List Contact}

theorem quiet (host : m'.host = m.host) (calls : m'.calls = m.calls) : Meets [] m m' :=
  ⟨host, calls.trans (List.append_nil _).symm⟩

theorem trans (first : Meets contacts m m') (second : Meets more m' m'') :
    Meets (contacts ++ more) m m'' := by
  constructor
  · rw [second.host, first.host, List.foldl_append]
  · rw [second.calls, first.calls, List.filterMap_append, List.append_assoc]

theorem call (m : Machine σ) (c : Call) : Meets [.call c] m (m.call c) :=
  ⟨rfl, m.calls_call c⟩

theorem online (m : Machine σ) (v : Nat) : Meets [.online v] m (m.online v).2 :=
  ⟨rfl, (List.append_nil _).symm⟩

theorem running (m : Machine σ) (v : Nat) : Meets [.running v] m (m.running v).2 :=
  ⟨rfl, (List.append_nil _).symm⟩

theorem currentCpu (m : Machine σ) : Meets [.currentCpu] m m.currentCpu.2 :=
  ⟨rfl, (List.append_nil _).symm⟩

theorem upcallPending (m : Machine σ) (v : Nat) :
    Meets [.upcallPending v] m (m.upcallPending v).2 :=
  ⟨rfl, (List.append_nil _).symm⟩

/-- Contacts of one sort are what `Makes` asks for. -/
theorem makes (meets : Meets contacts m m') (inside : ∀ contact ∈ contacts, contact.Within C) :
    Makes C m m' :=
  ⟨contacts, meets, inside⟩

theorem makes_single {contact : Contact} (meets : Meets [contact] m m')
    (inside : contact.Within C) : Makes C m m' :=
  meets.makes fun _ member => List.mem_singleton.1 member ▸ inside

end Meets

namespace Makes

theorem quiet (host : m'.host = m.host) (calls : m'.calls = m.calls) : Makes C m m' :=
  (Meets.quiet host calls).makes (by simp)

theorem refl (m : Machine σ) : Makes C m m :=
  quiet rfl rfl

theorem trans (first : Makes C m m') (second : Makes C m' m'') : Makes C m m'' := by
  obtain ⟨contacts, met, inside⟩ := first
  obtain ⟨more, met', inside'⟩ := second
  exact (met.trans met').makes fun contact member =>
    (List.mem_append.1 member).elim (inside contact) (inside' contact)

theorem mono (within : ∀ c, C c → D c) (makes : Makes C m m') : Makes D m m' := by
  obtain ⟨contacts, met, inside⟩ := makes
  exact met.makes fun contact member => (inside contact member).mono within

theorem note (m : Machine σ) (n : Note) : Makes C m (m.note n) :=
  quiet rfl (m.calls_note n)

theorem modify (m : Machine σ) (f : Distributor → Distributor) : Makes C m (m.modify f) :=
  quiet rfl rfl

theorem foldl {α : Type} {f : Machine σ → α → Machine σ}
    (round : ∀ m x, Makes C m (f m x)) (xs : List α) (m : Machine σ) :
    Makes C m (xs.foldl f m) := by
  induction xs generalizing m with
  | nil => exact .refl m
  | cons x rest ih => exact (round m x).trans (ih (f m x))

/-- The calls that were made in between are of the sort. -/
theorem new (makes : Makes C m m') : ∃ made, m'.calls = m.calls ++ made ∧ ∀ c ∈ made, C c := by
  obtain ⟨contacts, met, inside⟩ := makes
  refine ⟨_, met.calls, fun c member => ?_⟩
  obtain ⟨contact, listed, same⟩ := List.mem_filterMap.1 member
  cases contact with
  | call made =>
      obtain rfl := Option.some.inj same
      exact inside _ listed
  | _ => cases same

theorem grown (makes : Makes C m m') : m.calls <+: m'.calls := by
  obtain ⟨made, after, -⟩ := makes.new
  exact ⟨made, after.symm⟩

/-- What was called in between is of the sort. -/
theorem sort_of_mem (makes : Makes C m m') {c : Call}
    (member : c ∈ m'.calls.drop m.calls.length) : C c := by
  obtain ⟨made, after, sort⟩ := makes.new
  rw [after, List.drop_left] at member
  exact sort c member

theorem calls_of_never (makes : Makes (fun _ => False) m m') : m'.calls = m.calls := by
  obtain ⟨made, after, none⟩ := makes.new
  rw [after, List.eq_nil_iff_forall_not_mem.2 none, List.append_nil]

end Makes

theorem makes_call (m : Machine σ) (c : Call) (sort : C c) : Makes C m (m.call c) :=
  (Meets.call m c).makes_single sort

theorem makes_online (m : Machine σ) (v : Nat) : Makes C m (m.online v).2 :=
  (Meets.online m v).makes_single trivial

theorem makes_upcallPending (m : Machine σ) (v : Nat) : Makes C m (m.upcallPending v).2 :=
  (Meets.upcallPending m v).makes_single trivial

/-! ## Raising lines -/

/-- The processor that VCPU `v` runs on, unless it is the one that asks once `v` is woken. -/
def elsewhere (m : Machine σ) (v : Nat) : Option Nat :=
  (m.running v).1.filter (· ≠ ((m.running v).2.call (.unblock v)).currentCpu.1)

/-- What the host meets with when VCPU `v` is woken. The processor of `v` is asked for before,
and the one that asks after, if `v` runs at all. -/
def wake (m : Machine σ) (v : Nat) : List Contact :=
  .running v :: .call (.unblock v) ::
    if (m.running v).1.isSome then
      .currentCpu :: (m.elsewhere v).toList.map fun cpu => .call (.check cpu)
    else []

theorem meets_kick (m : Machine σ) (v : Nat) : Meets (m.wake v) m (m.kick v) := by
  have woken := (Meets.running m v).trans (.call _ (.unblock v))
  unfold kick wake elsewhere
  cases runs : (m.running v).1 with
  | none =>
      simp only [runs, Option.isSome_none, Bool.false_eq_true, if_false]
      exact woken
  | some cpu =>
      have asked := woken.trans (.currentCpu _)
      simp only [runs, Option.isSome_some, if_true]
      by_cases here : cpu = ((m.running v).2.call (.unblock v)).currentCpu.1
      · rw [if_pos here, Option.filter_some_neg (by simpa using here)]
        exact asked
      · rw [if_neg here, Option.filter_some_pos (by simpa using here)]
        exact asked.trans (.call _ (.check cpu))

theorem wake_calls (m : Machine σ) (v : Nat) :
    (m.wake v).filterMap Contact.call? = .unblock v :: (m.elsewhere v).toList.map .check := by
  unfold wake
  split
  · cases m.elsewhere v <;> rfl
  · rename_i idle
    have absent : (m.running v).1 = none := by simpa using idle
    rw [elsewhere, absent]
    rfl

theorem makes_kick (m : Machine σ) (v : Nat) :
    Makes (fun c => c.isWake = true) m (m.kick v) := by
  refine (meets_kick m v).makes fun contact member => ?_
  cases contact with
  | call made =>
      have called : made ∈ (m.wake v).filterMap Contact.call? :=
        List.mem_filterMap.2 ⟨_, member, rfl⟩
      rw [wake_calls] at called
      rcases List.mem_cons.1 called with rfl | told
      · rfl
      · obtain ⟨cpu, -, rfl⟩ := List.mem_map.1 told
        rfl
  | running | currentCpu => exact ⟨.unblock v, rfl, rfl⟩
  | online | upcallPending => trivial

theorem makes_notify (m : Machine σ) (line holder : Nat) :
    Makes (fun c => c.isWake = true) m (m.notify line holder) :=
  (Makes.note m _).trans (makes_kick _ holder)

theorem makes_link (m : Machine σ) (v : Nat) (ref : LineRef) (line : Nat) (priority : Byte) :
    Makes Call.Claims m (m.link v ref line priority) := by
  have claimed : Makes Call.Claims m (m.modify (·.updateLine ref (Descriptor.claim v priority))) :=
    .modify m _
  unfold link
  simp only
  split
  · exact (claimed.trans (makes_call _ (.raise v line priority) trivial)).trans (.modify _ _)
  · exact claimed.trans (.modify _ _)

theorem makes_deliver_of_free (m : Machine σ) {v : Nat} {ref : LineRef}
    (free : (m.dist.descriptor ref).owner = none) : Makes Call.Claims m (m.deliver [] v ref) := by
  rw [deliver_of_free free]
  have asked : Makes Call.Claims m (m.online v).2 := makes_online m v
  split
  · exact (asked.trans (makes_link _ v ref _ _)).trans
      ((makes_notify _ _ v).mono fun _ => Call.Claims.of_isWake)
  · exact asked.trans (.note _ _)

theorem makes_deliver_of_held (m : Machine σ) {v holder : Nat} {ref : LineRef}
    (owned : (m.dist.descriptor ref).owner = some holder)
    (alive : (m.dist.vcpu? holder).isSome = true) :
    Makes (fun c => c = .raiseInflight holder (m.dist.descriptor ref).line ∨ c.isWake = true) m
      (m.deliver [] v ref) := by
  rw [deliver_of_held owned alive]
  have marked := Makes.modify (C := fun c => c = .raiseInflight holder
    (m.dist.descriptor ref).line ∨ c.isWake = true) m (·.updateLine ref Descriptor.setQueued)
  exact (marked.trans (makes_call _ _ (.inl rfl))).trans
    ((makes_notify _ _ holder).mono fun _ wakes => .inr wakes)

theorem makes_deliver (m : Machine σ) (v : Nat) (ref : LineRef) :
    Makes Call.Delivers m (m.deliver [] v ref) := by
  cases owner : (m.dist.descriptor ref).owner with
  | none => exact (makes_deliver_of_free m owner).mono fun _ claims => claims.delivers
  | some holder =>
      by_cases alive : (m.dist.vcpu? holder).isSome = true
      · refine (makes_deliver_of_held m owner alive).mono ?_
        rintro c (rfl | wakes)
        · trivial
        · exact (Call.Claims.of_isWake wakes).delivers
      · rw [deliver_of_missing owner (by simpa using alive)]
        exact .note m _

theorem makes_inject (m : Machine σ) (v line : Nat) :
    Makes Call.Delivers m (m.inject v line).2 := by
  unfold inject injectAmid
  split
  · exact .refl _
  · exact makes_deliver m v _

theorem makes_firstOnline (m : Machine σ) (vs : List Nat) :
    Makes C m (m.firstOnline vs).2 := by
  induction vs generalizing m with
  | nil => exact .refl m
  | cons v rest ih =>
      unfold firstOnline
      split
      · exact ih m
      · have asked : Makes C m (m.online v).2 := makes_online m v
        simp only
        split
        · exact asked
        · exact asked.trans (ih _)

theorem calls_firstOnline (m : Machine σ) (vs : List Nat) :
    (m.firstOnline vs).2.calls = m.calls :=
  (makes_firstOnline m vs).calls_of_never

theorem makes_injectSpi (m : Machine σ) (line : Nat) :
    Makes Call.Delivers m (m.injectSpi line).2 := by
  unfold injectSpi
  split
  · exact .refl _
  · split
    · exact .refl _
    · split
      · exact .refl _
      · split
        · exact .refl _
        · exact (makes_firstOnline m _).trans (makes_inject _ _ line)

theorem makes_onlineAmong (m : Machine σ) (vs : List Nat) : Makes C m (m.onlineAmong vs).2 := by
  induction vs generalizing m with
  | nil => exact .refl m
  | cons v rest ih => exact (makes_online m v).trans (ih (m.online v).2)

theorem makes_softwareTargets (m : Machine σ) (v : Nat) (value : Word) (choice : TargetFilter) :
    Makes C m (m.softwareTargets v value choice).2 := by
  cases choice with
  | list | selfOnly => exact .refl m
  | allButSelf => exact makes_onlineAmong m _

theorem calls_softwareTargets (m : Machine σ) (v : Nat) (value : Word) (choice : TargetFilter) :
    (m.softwareTargets v value choice).2.calls = m.calls :=
  (makes_softwareTargets m v value choice).calls_of_never

theorem makes_sendTo (v : Nat) (value : Word) (m : Machine σ) (target : Nat) :
    Makes Call.Delivers m (sendTo v value m target) := by
  unfold sendTo
  split
  · exact .note m _
  · have asked : Makes Call.Delivers m (m.online target).2 := makes_online m target
    simp only
    split
    · split
      · exact asked
      · exact (asked.trans (.note _ _)).trans (makes_deliver _ target _)
    · exact asked.trans (.note _ _)

theorem makes_sendSoftware (m : Machine σ) (v : Nat) (value : Word) :
    Makes Call.Delivers m (m.sendSoftware v value).2 := by
  unfold sendSoftware
  split
  · exact .note m _
  · rename_i choice _
    have selected : Makes Call.Delivers m (m.softwareTargets v value choice).2 :=
      makes_softwareTargets m v value choice
    simp only
    split
    · exact selected
    · exact selected.trans (.foldl (makes_sendTo v value) _ _)

/-! ## Enabling and disabling lines -/

theorem makes_raiseHidden (m : Machine σ) (ref : LineRef) :
    Makes Call.Claims m (m.raiseHidden ref) := by
  unfold raiseHidden
  simp only
  split
  · exact .refl _
  · split
    · exact makes_call m _ trivial
    · exact .refl _

theorem makes_showEnabled (m : Machine σ) (v line : Nat) (ref : LineRef) :
    Makes Call.Claims m (m.showEnabled v line ref) := by
  unfold showEnabled
  split
  · have asked : Makes Call.Claims m (m.upcallPending v).2 :=
      makes_upcallPending m v
    simp only
    split
    · rename_i latched
      simp only [Bool.and_eq_true, Bool.not_eq_true', Descriptor.isInflight,
        Option.isSome_eq_false_iff, Option.isNone_iff_eq_none] at latched
      exact asked.trans (makes_deliver_of_free _ latched.2)
    · exact asked.trans (makes_raiseHidden _ ref)
  · exact makes_raiseHidden m ref

theorem makes_enablePhysical (m : Machine σ) (ref : LineRef) :
    Makes Call.Enables m (m.enablePhysical ref) := by
  unfold enablePhysical
  split
  · exact .refl _
  · exact makes_call m _ trivial

theorem makes_disablePhysical (m : Machine σ) (ref : LineRef) :
    Makes Call.Disables m (m.disablePhysical ref) := by
  unfold disablePhysical
  split
  · exact .refl _
  · exact makes_call m _ trivial

theorem makes_enableLine (v : Nat) (m : Machine σ) (line : Nat) :
    Makes Call.Enables m (enableLine v m line) := by
  unfold enableLine
  split
  · exact .refl _
  · rename_i ref _
    have shown := (makes_showEnabled (m.modify (·.updateLine ref (Descriptor.setEnabled true)))
      v line ref).mono fun _ claims => claims.enables
    exact (Makes.modify m _).trans (shown.trans (makes_enablePhysical _ ref))

theorem makes_enableMask (m : Machine σ) (v : Nat) (mask : Word) (rank : Nat) :
    Makes Call.Enables m (m.enableMask v mask rank).2 := by
  unfold enableMask
  split
  · exact .refl _
  · exact .foldl (makes_enableLine v) _ m

theorem makes_dequeue (m : Machine σ) (v : Nat) (ref : LineRef) :
    Makes Call.Disables m (m.dequeue [] v ref ref.number) := by
  cases owner : (m.dist.descriptor ref).owner with
  | none =>
      rw [dequeue_of_free _ owner]
      exact makes_call m _ trivial
  | some holder =>
      by_cases alive : (m.dist.vcpu? holder).isSome = true
      · rw [dequeue_of_held owner alive]
        exact (Makes.modify m _).trans (makes_call _ _ trivial)
      · rw [dequeue_of_missing _ owner (by simpa using alive)]
        exact .note m _

theorem makes_disableLine (v : Nat) (m : Machine σ) (line : Nat) :
    Makes Call.Disables m (disableLine (fun _ => []) v m line) := by
  unfold disableLine
  split
  · exact .refl _
  · rename_i ref found
    obtain ⟨rfl, -, -⟩ := Distributor.lineRef?_eq_some_iff.1 found
    have dequeued := makes_dequeue (m.modify (·.updateLine ref (Descriptor.setEnabled false))) v ref
    exact (Makes.modify m _).trans (dequeued.trans (makes_disablePhysical _ ref))

theorem makes_disableMask (m : Machine σ) (v : Nat) (mask : Word) (rank : Nat) :
    Makes Call.Disables m (m.disableMask (fun _ => []) v mask rank).2 := by
  unfold disableMask
  split
  · exact .refl _
  · exact .foldl (makes_disableLine v) _ m

/-! ## Completion, and the coming and going of VCPUs -/

theorem makes_clearPending (m : Machine σ) (v : Nat) :
    Makes (· = .clear v) m (m.clearPending v).2 := by
  unfold clearPending
  split
  · exact .refl _
  · have dropped : Makes (· = .clear v) m (m.modify (·.dropInflight v)) := .modify m _
    exact (dropped.trans (makes_call _ (.clear v) rfl)).trans (.note _ _)

theorem makes_freeVcpu (m : Machine σ) (v : Nat) : Makes (· = .clear v) m (m.freeVcpu v).2 := by
  have cleared := makes_clearPending m v
  unfold freeVcpu
  cases done : m.clearPending v with
  | mk answer after =>
      rw [done] at cleared
      cases answer with
      | error failure => exact cleared
      | ok _ => exact (cleared.trans (.modify after _)).trans (.note _ _)

theorem makes_retire (m : Machine σ) (v line : Nat) :
    Makes (fun c => ∃ priority, c = .raise v line priority) m (m.retire v line).2 := by
  unfold retire
  split
  · exact .refl _
  · simp only
    split
    · exact .quiet rfl rfl
    · split
      · exact (Makes.modify m _).trans (makes_call _ _ ⟨_, rfl⟩)
      · exact .quiet rfl rfl

theorem makes_initVcpu (m : Machine σ) (v : Nat) : Makes C m (m.initVcpu v).2 := by
  unfold initVcpu
  split
  · exact .refl _
  · split
    · exact .refl _
    · exact .refl _
    · split
      · exact .refl _
      · exact (Makes.modify m _).trans (.note _ _)

theorem makes_updateStatus (f : Descriptor → Descriptor) (v line : Nat) (m : Machine σ) :
    Makes C m (m.updateStatus f v line).2 := by
  unfold updateStatus
  split
  · exact .refl _
  · exact .quiet rfl rfl

/-! ## Reads and writes -/

theorem makes_decode (m : Machine σ) (v offset : Nat) (width : Width) :
    Makes (· = .crash) m (m.decode v offset width).2 := by
  unfold decode
  split
  · exact .note m _
  · split
    · exact .refl _
    · exact (Makes.note m _).trans (makes_call _ _ rfl)

theorem makes_read (m : Machine σ) (v offset : Nat) (width : Width) (signed : Bool) :
    Makes (· = .crash) m (m.read v offset width signed).2 := by
  unfold read
  split
  · exact .refl _
  · have decoded := makes_decode m v offset width
    cases done : m.decode v offset width with
    | mk answer after =>
        rw [done] at decoded
        cases answer with
        | error error => exact decoded
        | ok group =>
            simp only
            split
            · exact decoded.trans (.note after _)
            · exact decoded
            · exact decoded.trans (.note after _)

end Machine

/-- The calls that a write to a register may make. -/
def Register.MayCall : Register → Call → Prop
  | .setEnable, c => c.Enables
  | .clearEnable, c => c.Disables
  | .softwareInterrupt, c => c.Delivers
  | _, _ => False

/-- The calls that an operation may make. -/
def Operation.MayCall : Operation → Call → Prop
  | .read .., c | .readAt .., c => c = .crash
  | .write _ offset _ _, c =>
      c = .crash ∨ ∃ group, Frame.group? offset = some group ∧ group.register.MayCall c
  | .writeAt .., c => c = .crash ∨ ∃ register : Register, register.MayCall c
  | .inject .., c | .injectSpi _, c | .dispatchSoftware .., c => c.Delivers
  | .enableLines .., c => c.Enables
  | .disableLines .., c => c.Disables
  | .clearPending v, c | .freeVcpu v, c => c = .clear v
  | .retire v line, c => ∃ priority, c = .raise v line priority
  | _, _ => False

namespace Machine

variable {σ : Type} [Host σ]

theorem makes_writeBank {C : Call → Prop} (m : Machine σ) (v : Nat) (access : Access) (bank : Bank)
    (f : Word → Word) : Makes C m (m.writeBank v access bank f).2 := by
  unfold writeBank
  simp only
  split
  · exact .note m _
  · split
    · exact .refl _
    · exact .quiet rfl rfl

theorem makes_writeSetEnable (m : Machine σ) (v : Nat) (access : Access) (value : Word) :
    Makes Call.Enables m (m.writeSetEnable v access value).2 := by
  unfold writeSetEnable
  simp only
  split
  · exact .note m _
  · split
    · exact .quiet rfl rfl
    · exact (Makes.modify m _).trans (makes_enableMask _ v _ _)

theorem makes_writeClearEnable (m : Machine σ) (v : Nat) (access : Access) (value : Word) :
    Makes Call.Disables m (m.writeClearEnable v access value).2 := by
  unfold writeClearEnable
  simp only
  split
  · exact .note m _
  · split
    · exact .quiet rfl rfl
    · exact (Makes.modify m _).trans (makes_disableMask _ v _ _)

theorem makes_writeRegister (m : Machine σ) (v : Nat) (access : Access) (value : Word)
    (register : Register) :
    Makes register.MayCall m (m.writeRegister v access value register).2 := by
  cases register with
  | control =>
      unfold writeRegister writeControl
      simp only
      split
      · exact .quiet rfl rfl
      · exact (Makes.modify m _).trans (.note _ _)
  | setEnable => exact makes_writeSetEnable m v access value
  | clearEnable => exact makes_writeClearEnable m v access value
  | softwareInterrupt => exact makes_sendSoftware m v value
  | clearActive | priority => exact makes_writeBank m v access _ _
  | targets | trigger =>
      unfold writeRegister
      simp only
      split
      · exact .note m _
      · exact makes_writeBank m v access _ _
  | _ => exact .note m _

theorem makes_write (m : Machine σ) (v offset : Nat) (width : Width) (value : Word) :
    Makes (Operation.write v offset width value).MayCall m (m.write v offset width value).2 := by
  rcases m.write_cases v offset width value with
    ⟨-, -, still | decoded⟩ | ⟨-, group, accepts, reached⟩
  · rw [still]
    exact .refl m
  · rw [decoded]
    exact (makes_decode m v offset width).mono fun _ crash => .inl crash
  · rw [reached]
    exact (Makes.note m _).trans ((makes_writeRegister _ v _ value group.register).mono
      fun c may => .inr ⟨group, accepts.1, may⟩)

/-! ## Whole operations -/

/-- An operation makes no calls but those that it may make. -/
theorem perform_makes (m : Machine σ) (operation : Operation) :
    Makes operation.MayCall m (m.perform operation).2 := by
  cases operation with
  | initVcpu v => exact makes_initVcpu m v
  | freeVcpu v => exact makes_freeVcpu m v
  | read v offset width signed => exact makes_read m v offset width signed
  | write v offset width value => exact makes_write m v offset width value
  | readAt v address width signed =>
      show Makes _ m (m.readAt v address width signed).2
      unfold readAt
      split
      · exact .refl _
      · exact makes_read m v _ width signed
  | writeAt v address width value =>
      show Makes _ m (m.writeAt v address width value).2
      unfold writeAt
      split
      · exact .refl _
      · refine (makes_write m v _ width value).mono ?_
        rintro c (crash | ⟨group, -, may⟩)
        · exact .inl crash
        · exact .inr ⟨group.register, may⟩
  | inject v line => exact makes_inject m v line
  | injectSpi line => exact makes_injectSpi m line
  | dispatchSoftware v value =>
      show Makes _ m (m.dispatchSoftware v value).2
      unfold dispatchSoftware
      split
      · exact .refl _
      · exact makes_sendSoftware m v value
  | enableLines v mask rank =>
      show Makes _ m (m.enableLines v mask rank).2
      unfold enableLines
      split
      · exact .refl _
      · exact makes_enableMask m v mask rank
  | disableLines v mask rank =>
      show Makes _ m (m.disableLines v mask rank).2
      unfold disableLines disableLinesAmid
      split
      · exact .refl _
      · exact makes_disableMask m v mask rank
  | clearPending v => exact makes_clearPending m v
  | setVisible v line visible => exact makes_updateStatus _ v line m
  | setActive v line active => exact makes_updateStatus _ v line m
  | retire v line => exact makes_retire m v line
  | routePhysical v line irq =>
      show Makes _ m (m.routePhysical v line irq).2
      unfold routePhysical
      split
      · exact .refl _
      · exact (Makes.modify m _).trans (.note _ _)
  | unroutePhysical v line =>
      show Makes _ m (m.unroutePhysical v line).2
      unfold unroutePhysical
      split
      · exact .refl _
      · exact .quiet rfl rfl
  | inflightLines | pendingStatus => exact .refl _

end Machine

end VirtualGic
