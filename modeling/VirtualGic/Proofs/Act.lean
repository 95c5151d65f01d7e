/-
# Proofs.Act — the acts that operations are made of

An operation of the distributor is a sequence of acts, and there are few kinds of
them. An `Act` says what it does to the distributor (`apply`), which events it leaves
(`events`) and where it can happen (`Allowed`). `Step` is one act of a machine, and
`Steps K` any number of acts of a kind `K`; the host may move on with every act, as
the state of the collaborators is nobody's business here.

Acts that the program does under one list lock are one act: claiming a line raises it
if it is enabled (`link`), enabling it shows it if it is hidden (`enable`), raising it
again latches it (`retrigger`), and completing it raises what came in between (`keep`).
So what holds of every run is proved act by act, and no proof opens an operation twice.
-/
import VirtualGic.Proofs.View
import Mathlib.Logic.Relation

namespace VirtualGic

set_option autoImplicit false

/-- What is recorded about a line without moving it between lists. -/
inductive Report where
  | disabled
  | visible (shown : Bool)
  | active (acknowledged : Bool)
  | completed
  | routed (irq : Nat)
  | unrouted
deriving DecidableEq

/-- The descriptor after a report. -/
def Report.apply : Report → Descriptor → Descriptor
  | disabled => Descriptor.setEnabled false
  | visible shown => Descriptor.setVisible shown
  | active acknowledged => Descriptor.setActive acknowledged
  | completed => Descriptor.complete
  | routed irq => Descriptor.route irq
  | unrouted => Descriptor.unroute

@[simp] theorem Report.apply_line (report : Report) (p : Descriptor) :
    (report.apply p).line = p.line := by
  cases report <;> rfl

@[simp] theorem Report.apply_owner (report : Report) (p : Descriptor) :
    (report.apply p).owner = p.owner := by
  cases report <;> rfl

@[simp] theorem Report.apply_priority (report : Report) (p : Descriptor) :
    (report.apply p).priority = p.priority := by
  cases report <;> rfl

/-- One thing that a distributor does. -/
inductive Act where
  /-- Ask the host something. -/
  | ask
  /-- Write a note. -/
  | note (written : Note)
  /-- Call a collaborator, but not to raise a line. -/
  | call (made : Call)
  /-- Switch the distributor. -/
  | control (enabled : Bool)
  /-- Change a rank as a VCPU sees it. -/
  | store (v index : Nat) (f : Rank → Rank)
  /-- Record something about a line. -/
  | touch (ref : LineRef) (report : Report)
  /-- Enable a line, and show it if it is inflight and hidden. -/
  | enable (ref : LineRef)
  /-- Raise a line again on the VCPU that holds it. -/
  | retrigger (holder : Nat) (ref : LineRef)
  /-- Claim a free line for a VCPU, and raise it if it is enabled. -/
  | link (v : Nat) (ref : LineRef) (priority : Byte)
  /-- Complete a line that was raised again, and raise it. -/
  | keep (v : Nat) (ref : LineRef)
  /-- Take a line off the list of its holder. -/
  | unlink (holder : Nat) (ref : LineRef)
  /-- Hand back every line on the list of a VCPU. -/
  | clear (v : Nat)
  /-- Give a VCPU its state. -/
  | allocate (v : Nat) (vcpu : Vcpu)
  /-- Take the state of a VCPU away. -/
  | release (v : Nat)

/-- Whether a call raises a line, for the first time or again. -/
def Call.isRaise : Call → Bool
  | raise .. | raiseInflight .. => true
  | _ => false

namespace Act

/-- What an act does to the distributor. -/
def apply : Act → Distributor → Distributor
  | ask, d | note _, d | call _, d => d
  | control enabled, d => { d with enabled }
  | store v index f, d => d.updateRank v index f
  | touch ref report, d => d.updateLine ref report.apply
  | enable ref, d => d.updateLine ref (Descriptor.setEnabled true)
  | retrigger _ ref, d => d.updateLine ref Descriptor.setQueued
  | link v ref priority, d =>
      (d.updateLine ref (Descriptor.claim v priority)).updateInflight v
        (·.insert (d.descriptor ref).line priority)
  | keep _ ref, d => d.updateLine ref Descriptor.complete
  | unlink holder ref, d =>
      (d.updateLine ref (Descriptor.handBack holder)).updateInflight holder (·.erase ref.number)
  | clear v, d => d.dropInflight v
  | allocate v vcpu, d => d.setVcpu v (some vcpu)
  | release v, d => d.setVcpu v none

/-- The raise that shows a line, if it is inflight and in no list register. -/
def shows (d : Distributor) (p : Descriptor) : List Event :=
  match p.owner with
  | none => []
  | some owner =>
      if (d.vcpu? owner).isSome && !p.status.visible then
        [.call (.raise owner p.line p.priority)]
      else []

/-- The events an act leaves. -/
def events : Act → Distributor → List Event
  | note written, _ => [.note written]
  | call made, _ => [.call made]
  | enable ref, d => shows d (d.descriptor ref)
  | retrigger holder ref, d => [.call (.raiseInflight holder (d.descriptor ref).line)]
  | link v ref priority, d =>
      if (d.descriptor ref).status.enabled then
        [.call (.raise v (d.descriptor ref).line priority)]
      else []
  | keep v ref, d => [.call (.raise v ref.number (d.descriptor ref).priority)]
  | _, _ => []

/-- Where an act can happen. -/
def Allowed : Act → Distributor → Prop
  | note written, d =>
      ∀ line v, written = .ownerMissing line v →
        d.vcpu? v = none ∧ ∃ ref, (d.descriptor ref).owner = some v
  | call made, _ => made.isRaise = false
  | touch ref _, d | enable ref, d => (d.descriptor? ref).isSome = true
  | retrigger holder ref, d => (d.descriptor ref).owner = some holder
  | link v ref priority, d =>
      (d.descriptor? ref).isSome = true ∧ ref.SeenBy v ∧ (d.vcpu? v).isSome = true ∧
        (d.descriptor ref).owner = none ∧
        priority = d.priorityOf v (d.descriptor ref).line
  | keep v ref, d =>
      (d.descriptor ref).owner = some v ∧ (d.descriptor ref).status.queued = true ∧
        (d.descriptor ref).status.enabled = true
  | unlink holder ref, d => (d.descriptor ref).owner = some holder
  | allocate v vcpu, d =>
      d.vcpu? v = none ∧ v < d.vcpus.size ∧
        ∃ lines, d.config.lineCount = .ok lines ∧ Vcpu.create v lines = .ok vcpu
  | release v, d => ∀ list, d.inflight? v = some list → list.entries = []
  | _, _ => True

/-! ## Kinds of acts -/

/-- Acts that leave the distributor as it is. -/
def Idles : Act → Prop
  | ask | note _ | call _ => True
  | _ => False

/-- The acts of raising lines in `S`. -/
def Delivers (S : LineRef → Prop) : Act → Prop
  | ask | note _ | call _ => True
  | retrigger _ ref | link _ ref _ => S ref
  | _ => False

/-- The acts of enabling lines in `S`. -/
def Enables (S : LineRef → Prop) : Act → Prop
  | ask | note _ | call _ => True
  | enable ref | retrigger _ ref | link _ ref _ => S ref
  | _ => False

/-- The acts of disabling lines in `S`. -/
def Disables (S : LineRef → Prop) : Act → Prop
  | ask | note _ | call _ => True
  | touch ref .disabled | unlink _ ref => S ref
  | _ => False

/-- Acts after which every list still has the entries it had, and what was enabled is. -/
def Grows : Act → Prop
  | unlink .. | clear _ | release _ | touch _ .disabled => False
  | _ => True

/-- Acts that put no line on a list and raise none. -/
def Shrinks : Act → Prop
  | enable _ | retrigger .. | link .. | keep .. | allocate .. => False
  | _ => True

theorem Idles.delivers {a : Act} (idles : a.Idles) (S : LineRef → Prop) : a.Delivers S := by
  cases a <;> trivial

theorem Idles.disables {a : Act} (idles : a.Idles) (S : LineRef → Prop) : a.Disables S := by
  cases a <;> trivial

theorem Delivers.enables {a : Act} {S : LineRef → Prop} (delivers : a.Delivers S) :
    a.Enables S := by
  cases a <;> first | exact delivers | exact delivers.elim

theorem Idles.enables {a : Act} (idles : a.Idles) (S : LineRef → Prop) : a.Enables S :=
  (idles.delivers S).enables

theorem Delivers.mono {a : Act} {S T : LineRef → Prop} (within : ∀ ref, S ref → T ref)
    (delivers : a.Delivers S) : a.Delivers T := by
  cases a <;> first | exact within _ delivers | exact delivers

theorem Enables.mono {a : Act} {S T : LineRef → Prop} (within : ∀ ref, S ref → T ref)
    (enables : a.Enables S) : a.Enables T := by
  cases a <;> first | exact within _ enables | exact enables

theorem Disables.mono {a : Act} {S T : LineRef → Prop} (within : ∀ ref, S ref → T ref)
    (disables : a.Disables S) : a.Disables T := by
  cases a with
  | touch ref report => cases report <;> first | exact within _ disables | exact disables
  | unlink holder ref => exact within _ disables
  | _ => exact disables

/-- A note is only ever written by the act of writing it. -/
theorem eq_note_of_mem_events {a : Act} {d : Distributor} {written : Note}
    (member : Event.note written ∈ a.events d) : a = .note written := by
  cases a with
  | note other =>
      simp only [events, List.mem_singleton, Event.note.injEq] at member
      rw [member]
  | enable ref =>
      simp only [events, shows] at member
      split at member
      · cases member
      · split at member <;> simp at member
  | link v ref priority =>
      simp only [events] at member
      split at member <;> simp at member
  | _ => simp [events] at member

end Act

/-! ## Acts of a machine -/

section Machines

variable {σ : Type}

/-- A machine does one act. -/
structure Step (m : Machine σ) (a : Act) (m' : Machine σ) : Prop where
  /-- The act can happen. -/
  allowed : a.Allowed m.dist
  /-- The distributor is changed as the act says. -/
  dist : m'.dist = a.apply m.dist
  /-- The events of the act are added to what has happened. -/
  trace : m'.trace = m.trace ++ a.events m.dist

/-- A machine does any number of acts of a kind. -/
def Steps (K : Act → Prop) : Machine σ → Machine σ → Prop :=
  Relation.ReflTransGen fun m m' => ∃ a, K a ∧ Step m a m'

namespace Steps

variable {K L : Act → Prop} {m m' m'' : Machine σ}

theorem refl (m : Machine σ) : Steps K m m :=
  Relation.ReflTransGen.refl

theorem trans (first : Steps K m m') (second : Steps K m' m'') : Steps K m m'' :=
  Relation.ReflTransGen.trans first second

theorem single {a : Act} (step : Step m a m') (kind : K a) : Steps K m m' :=
  Relation.ReflTransGen.single ⟨a, kind, step⟩

theorem mono (within : ∀ a, K a → L a) (steps : Steps K m m') : Steps L m m' :=
  Relation.ReflTransGen.mono (fun _ _ ⟨a, kind, step⟩ => ⟨a, within a kind, step⟩) _ _ steps

/-- What every act of a kind keeps, any number of them keeps. -/
theorem kept {P : Machine σ → Prop}
    (keep : ∀ {m a m'}, K a → Step m a m' → P m → P m')
    (steps : Steps K m m') (start : P m) : P m' := by
  induction steps with
  | refl => exact start
  | tail _ step ih =>
      obtain ⟨a, kind, step⟩ := step
      exact keep kind step ih

/-- What every act of a kind keeps, where it matters what happened since the start. -/
theorem keptSince {P : Machine σ → Prop}
    (keep : ∀ {b a c}, Steps K m b → K a → Step b a c → P b → P c)
    (steps : Steps K m m') (start : P m) : P m' := by
  induction steps with
  | refl => exact start
  | tail before step ih =>
      obtain ⟨a, kind, step⟩ := step
      exact keep before kind step ih

/-- Acts add to what has happened and take nothing back. -/
theorem trace_extend (steps : Steps K m m') : m.trace <+: m'.trace :=
  steps.kept (P := fun s => m.trace <+: s.trace)
    (fun _ step before => step.trace ▸ before.trans (List.prefix_append _ _)) List.prefix_rfl

end Steps

/-- Acts that only call, note and ask leave the distributor as it is. -/
theorem Steps.dist_of_idles {m m' : Machine σ} (steps : Steps Act.Idles m m') :
    m'.dist = m.dist := by
  refine steps.kept (P := fun s => s.dist = m.dist) ?_ rfl
  intro s a s' idle step before
  rw [step.dist, ← before]
  cases a with
  | ask | note | call => rfl
  | _ => exact idle.elim

/-- A fold does the acts of its rounds, if each round can rely on `P` and leaves it. -/
theorem Steps.foldl {α : Type} {K : Act → Prop} {P : Machine σ → Prop}
    {f : Machine σ → α → Machine σ} {xs : List α}
    (round : ∀ m x, x ∈ xs → P m → Steps K m (f m x))
    (keep : ∀ m m', Steps K m m' → P m → P m') (m : Machine σ) (start : P m) :
    Steps K m (xs.foldl f m) := by
  induction xs generalizing m with
  | nil => exact .refl m
  | cons x rest ih =>
      have first := round m x List.mem_cons_self start
      exact first.trans
        (ih (fun m y member => round m y (List.mem_cons_of_mem x member)) (f m x)
          (keep m _ first start))

/-! ## What an act does to the calls -/

theorem Step.calls {m m' : Machine σ} {a : Act} (step : Step m a m') :
    m'.calls = m.calls ++ (a.events m.dist).filterMap Event.call? := by
  simp only [Machine.calls, step.trace, List.filterMap_append]

theorem Steps.calls_extend {K : Act → Prop} {m m' : Machine σ} (steps : Steps K m m') :
    m.calls <+: m'.calls :=
  steps.trace_extend.filterMap Event.call?

/-! ## What was called since -/

section Calls

variable {α : Type} {x : α} {first second third : List α} {n : Nat}

theorem mem_drop_append (early : n ≤ first.length) :
    x ∈ (first ++ second).drop n ↔ x ∈ first.drop n ∨ x ∈ second := by
  rw [List.drop_append, Nat.sub_eq_zero_of_le early, List.drop_zero, List.mem_append]

theorem mem_drop_of_prefix (grown : first <+: second) (member : x ∈ first.drop n) :
    x ∈ second.drop n := by
  obtain ⟨rest, rfl⟩ := grown
  rw [List.drop_append]
  exact List.mem_append_left _ member

/-- What was added came in the first stretch or in the second. -/
theorem mem_drop_cases (early : n ≤ second.length) (grown : second <+: third)
    (member : x ∈ third.drop n) : x ∈ second.drop n ∨ x ∈ third.drop second.length := by
  obtain ⟨rest, rfl⟩ := grown
  rw [List.drop_left]
  exact (mem_drop_append early).1 member

end Calls

theorem mem_calls_of_events {events : List Event} {c : Call} :
    c ∈ events.filterMap Event.call? ↔ Event.call c ∈ events := by
  simp only [List.mem_filterMap]
  constructor
  · rintro ⟨event, member, same⟩
    cases event with
    | call made =>
        obtain rfl := Option.some.inj same
        exact member
    | note written => cases same
  · exact fun member => ⟨.call c, member, rfl⟩

theorem Step.calls_extend {m m' : Machine σ} {a : Act} (step : Step m a m') :
    m.calls <+: m'.calls :=
  step.calls ▸ List.prefix_append _ _

/-- The calls of an act are made after all the others. -/
theorem Step.mem_calls_iff {m m' : Machine σ} {a : Act} (step : Step m a m') {n : Nat}
    (early : n ≤ m.calls.length) {c : Call} :
    c ∈ m'.calls.drop n ↔ c ∈ m.calls.drop n ∨ Event.call c ∈ a.events m.dist := by
  rw [step.calls, mem_drop_append early, mem_calls_of_events]

theorem Step.mem_calls {m m' : Machine σ} {a : Act} (step : Step m a m') {n : Nat}
    (early : n ≤ m.calls.length) {c : Call} (member : Event.call c ∈ a.events m.dist) :
    c ∈ m'.calls.drop n :=
  (step.mem_calls_iff early).2 (.inr member)

theorem Act.Shrinks.not_raise {a : Act} {d : Distributor} (shrinks : a.Shrinks)
    (allowed : a.Allowed d) {c : Call} (raises : c.isRaise = true) :
    Event.call c ∉ a.events d := by
  intro member
  cases a with
  | call made =>
      simp only [events, List.mem_singleton, Event.call.injEq] at member
      rw [member, show made.isRaise = false from allowed] at raises
      cases raises
  | enable | retrigger | link | keep | allocate => exact shrinks.elim
  | _ => simp [events] at member

/-- Where lists only shrink, nothing is raised. -/
theorem Steps.raises_old {K : Act → Prop} {m m' : Machine σ} (steps : Steps K m m')
    (shrinks : ∀ a, K a → a.Shrinks) {n : Nat} (early : n ≤ m.calls.length) {c : Call}
    (raises : c.isRaise = true) (member : c ∈ m'.calls.drop n) : c ∈ m.calls.drop n := by
  refine steps.keptSince (P := fun s => c ∈ s.calls.drop n → c ∈ m.calls.drop n) ?_ id member
  intro b a b' since kind step before member
  have late := Nat.le_trans early since.calls_extend.length_le
  rcases (step.mem_calls_iff late).1 member with member | member
  · exact before member
  · exact absurd member ((shrinks a kind).not_raise step.allowed raises)

end Machines

/-! ## Descriptors after an act -/

namespace Act

/-- The one line that an act changes, and how. -/
def change? : Act → Option (LineRef × (Descriptor → Descriptor))
  | touch ref report => some (ref, report.apply)
  | enable ref => some (ref, Descriptor.setEnabled true)
  | retrigger _ ref => some (ref, Descriptor.setQueued)
  | link v ref priority => some (ref, Descriptor.claim v priority)
  | keep _ ref => some (ref, Descriptor.complete)
  | unlink holder ref => some (ref, Descriptor.handBack holder)
  | _ => none

/-- Acts about registers and collaborators. -/
def Registers : Act → Prop
  | ask | note _ | call _ | control _ | store .. => True
  | _ => False

theorem descriptor?_apply_of_change? {a : Act} {d : Distributor} {ref : LineRef}
    {f : Descriptor → Descriptor} (change : a.change? = some (ref, f)) (other : LineRef) :
    (a.apply d).descriptor? other =
      if ref = other then (d.descriptor? other).map f else d.descriptor? other := by
  cases a with
  | touch | enable | retrigger | keep =>
      cases change
      exact Distributor.descriptor?_updateLine ..
  | link | unlink =>
      cases change
      exact Distributor.descriptor?_updateLine_updateInflight ..
  | _ => cases change

theorem Registers.descriptor?_apply {a : Act} {d : Distributor} (registers : a.Registers)
    (ref : LineRef) : (a.apply d).descriptor? ref = d.descriptor? ref := by
  cases a with
  | ask | note | call => rfl
  | control => cases ref <;> rfl
  | store v index f => exact Distributor.descriptor?_updateRank d v index f ref
  | _ => exact registers.elim

end Act

theorem Step.descriptor? {σ : Type} {m m' : Machine σ} {a : Act} (step : Step m a m')
    {ref : LineRef} {f : Descriptor → Descriptor} (change : a.change? = some (ref, f))
    (other : LineRef) : m'.dist.descriptor? other =
      if ref = other then (m.dist.descriptor? other).map f else m.dist.descriptor? other := by
  rw [step.dist]
  exact Act.descriptor?_apply_of_change? change other

/-! ## Lists and presence after an act -/

namespace Act

/-- Acts other than making and releasing a VCPU leave the VCPUs that have state. -/
theorem inflight?_isSome_apply {a : Act} {d : Distributor} (v : Nat)
    (fixed : match a with | allocate .. | release _ => False | _ => True) :
    ((a.apply d).inflight? v).isSome = (d.inflight? v).isSome := by
  cases a with
  | allocate | release => exact fixed.elim
  | ask | note | call | control => rfl
  | store => simp only [apply, Distributor.inflight?_updateRank]
  | touch | enable | retrigger | keep => simp only [apply, Distributor.inflight?_updateLine]
  | link | unlink =>
      simp only [apply, Distributor.inflight?_updateLine_updateInflight]
      split <;> simp
  | clear =>
      simp only [apply, Distributor.inflight?_dropInflight]
      split <;> simp

/-- Acts that move no line and no VCPU leave every list as it is. -/
theorem inflight?_apply {a : Act} {d : Distributor}
    (still : match a with
      | link .. | unlink .. | clear _ | allocate .. | release _ => False
      | _ => True)
    (v : Nat) : (a.apply d).inflight? v = d.inflight? v := by
  cases a with
  | ask | note | call | control => rfl
  | store => exact Distributor.inflight?_updateRank ..
  | touch | enable | retrigger | keep => exact Distributor.inflight?_updateLine ..
  | link | unlink | clear | allocate | release => exact still.elim

/-- A claim puts one entry on one list. -/
theorem lists_link_iff {d : Distributor} {v : Nat} (ref : LineRef) (priority : Byte)
    (present : (d.vcpu? v).isSome = true) {w : Nat} {entry : Entry} :
    ((link v ref priority).apply d).Lists w entry ↔
      v = w ∧ entry = ⟨(d.descriptor ref).line, priority⟩ ∨ d.Lists w entry := by
  rw [← Distributor.inflight?_isSome] at present
  obtain ⟨list, held⟩ := Option.isSome_iff_exists.1 present
  unfold Distributor.Lists
  rw [apply, Distributor.inflight?_updateLine_updateInflight]
  by_cases same : v = w
  · subst same
    simp [held, Inflight.mem_insert]
  · simp [same]

/-- What is on a list stays there when lists only grow. -/
theorem Grows.lists {a : Act} {d : Distributor} (grows : a.Grows) (allowed : a.Allowed d)
    {v : Nat} {entry : Entry} (lists : d.Lists v entry) : (a.apply d).Lists v entry := by
  obtain ⟨list, found, member⟩ := lists
  cases a with
  | link w ref priority =>
      exact (lists_link_iff ref priority allowed.2.2.1).2 (.inr ⟨list, found, member⟩)
  | allocate w vcpu =>
      refine ⟨list, ?_, member⟩
      rw [apply, Distributor.inflight?_setVcpu, if_neg, found]
      rintro ⟨rfl, -⟩
      rw [Distributor.inflight?, allowed.1] at found
      cases found
  | unlink | clear | release => exact grows.elim
  | _ => exact ⟨list, (inflight?_apply (by trivial) v).trans found, member⟩

/-- What is on a list was there before when lists only shrink. -/
theorem Shrinks.lists {a : Act} {d : Distributor} (shrinks : a.Shrinks) {v : Nat} {entry : Entry}
    (lists : (a.apply d).Lists v entry) : d.Lists v entry := by
  obtain ⟨list, found, member⟩ := lists
  cases a with
  | unlink w ref =>
      simp only [apply, Distributor.inflight?_updateLine_updateInflight] at found
      split at found
      · obtain ⟨old, held, rfl⟩ := Option.map_eq_some_iff.1 found
        exact ⟨old, held, List.mem_of_mem_eraseP member⟩
      · exact ⟨list, found, member⟩
  | clear w =>
      simp only [apply, Distributor.inflight?_dropInflight] at found
      split at found
      · obtain ⟨old, -, rfl⟩ := Option.map_eq_some_iff.1 found
        cases member
      · exact ⟨list, found, member⟩
  | release w =>
      simp only [apply, Distributor.inflight?_setVcpu] at found
      split at found
      · cases found
      · exact ⟨list, found, member⟩
  | enable | retrigger | link | keep | allocate => exact shrinks.elim
  | _ => exact ⟨list, (inflight?_apply (by trivial) v).symm.trans found, member⟩

end Act

theorem Steps.lists_of_grows {σ : Type} {K : Act → Prop} {m m' : Machine σ}
    (steps : Steps K m m') (grows : ∀ a, K a → a.Grows) {v : Nat} {entry : Entry}
    (lists : m.dist.Lists v entry) : m'.dist.Lists v entry := by
  refine steps.kept (P := fun s => s.dist.Lists v entry) ?_ lists
  intro m a m' kind step before
  rw [step.dist]
  exact (grows a kind).lists step.allowed before

theorem Steps.lists_of_shrinks {σ : Type} {K : Act → Prop} {m m' : Machine σ}
    (steps : Steps K m m') (shrinks : ∀ a, K a → a.Shrinks) {v : Nat} {entry : Entry}
    (lists : m'.dist.Lists v entry) : m.dist.Lists v entry := by
  refine steps.kept (P := fun s => s.dist.Lists v entry → m.dist.Lists v entry) ?_ id lists
  intro m a m' kind step before lists
  rw [step.dist] at lists
  exact before ((shrinks a kind).lists lists)

end VirtualGic
