/-
# Proofs.Order — lists stand in the order of priority, and of linking

A list is kept in ascending priority, and entries of one priority in the order in which
they were put on it. The second half is about the history: `LinkedAt` says which operation
of a history put an entry on a list, that the entry has been there ever since, and that its
priority is the byte that the registers had for the line at that operation.
`delivery_order` is the whole: every list is strictly ordered by priority and that moment
(`Entry.Before`), and no operation turns two entries round that it leaves on a list.

Lists change in two ways. Acts other than a claim only take entries off, so any order is
kept. A claim inserts an entry, which is newer than all others: an operation that claims
lines claims only one number (`links_or_queues`), so nothing else on the list is as new.
-/
import VirtualGic.Proofs.Access
import VirtualGic.Proofs.Agreement
import VirtualGic.Proofs.Shape
import Mathlib.Data.List.Induction

namespace VirtualGic

set_option autoImplicit false

/-! ## Lists in order -/

namespace Entry

/-- Whether an entry is delivered before another one: its priority value is smaller, or it
is the same and the entry is older. -/
def Before (since : Nat → Nat) (a b : Entry) : Prop :=
  a.priority < b.priority ∨ a.priority = b.priority ∧ since a.line < since b.line

theorem Before.asymm {since : Nat → Nat} {a b : Entry} (before : a.Before since b) :
    ¬ b.Before since a := by
  rintro (less | ⟨same, older⟩)
  · rcases before with less' | ⟨same', -⟩
    · exact absurd (BitVec.lt_trans less less') (BitVec.lt_irrefl _)
    · exact absurd (same' ▸ less) (BitVec.lt_irrefl _)
  · rcases before with less' | ⟨-, older'⟩
    · exact absurd (same ▸ less') (BitVec.lt_irrefl _)
    · omega

/-- The newest entry is inserted at its place. -/
theorem pairwise_insertInto {since : Nat → Nat} {entry : Entry} {entries : List Entry}
    (ordered : entries.Pairwise (Before since))
    (newest : ∀ other ∈ entries, since other.line < since entry.line) :
    (entry.insertInto entries).Pairwise (Before since) := by
  induction entries with
  | nil => simp [insertInto]
  | cons head rest ih =>
      obtain ⟨first, ordered'⟩ := List.pairwise_cons.1 ordered
      simp only [insertInto]
      split
      · rename_i less
        refine List.pairwise_cons.2 ⟨fun other member => .inl ?_, ordered⟩
        rcases List.mem_cons.1 member with rfl | member
        · exact less
        · rcases first other member with less' | ⟨same, -⟩
          · exact BitVec.lt_trans less less'
          · exact same ▸ less
      · rename_i least
        refine List.pairwise_cons.2 ⟨fun other member => ?_,
          ih ordered' fun other member => newest other (List.mem_cons_of_mem head member)⟩
        rcases mem_insertInto.1 member with rfl | member
        · by_cases same : head.priority = other.priority
          · exact .inr ⟨same, newest head List.mem_cons_self⟩
          · exact .inl (BitVec.lt_of_le_ne (BitVec.not_lt.1 least) same)
        · exact first other member

end Entry

/-- Every list stands in the order of delivery. -/
def Distributor.Ordered (d : Distributor) (since : Nat → Nat → Nat) : Prop :=
  ∀ v list, d.inflight? v = some list → list.entries.Pairwise (Entry.Before (since v))

theorem Distributor.Ordered.congr {d : Distributor} {since since' : Nat → Nat → Nat}
    (ordered : d.Ordered since)
    (same : ∀ {v entry}, d.Lists v entry → since' v entry.line = since v entry.line) :
    d.Ordered since' := by
  intro v list found
  refine (ordered v list found).imp_of_mem ?_
  intro a b first second before
  rw [Entry.Before, same ⟨list, found, first⟩, same ⟨list, found, second⟩]
  exact before

/-! ## Acts that take entries off -/

namespace Act

/-- Whether an act claims a line. -/
def Links : Act → Prop
  | link .. => True
  | _ => False

variable {a : Act} {d : Distributor}

/-- Without a claim, a list has some of the entries it had, in the order they had. -/
theorem sublist_of_not_links (other : ¬ a.Links) (allowed : a.Allowed d) {v : Nat}
    {list' : Inflight} (found : (a.apply d).inflight? v = some list') :
    ∃ entries, list'.entries.Sublist entries ∧
      (entries = [] ∨ ∃ list, d.inflight? v = some list ∧ list.entries = entries) := by
  have same : ∀ list, d.inflight? v = some list → ∃ entries, list.entries.Sublist entries ∧
      (entries = [] ∨ ∃ list, d.inflight? v = some list ∧ list.entries = entries) :=
    fun list held => ⟨_, List.Sublist.refl _, .inr ⟨list, held, rfl⟩⟩
  cases a with
  | link => exact absurd trivial other
  | unlink w ref =>
      rw [apply, Distributor.inflight?_updateLine_updateInflight] at found
      split at found
      · obtain ⟨list, held, rfl⟩ := Option.map_eq_some_iff.1 found
        exact ⟨_, List.eraseP_sublist, .inr ⟨list, held, rfl⟩⟩
      · exact same _ found
  | clear w =>
      rw [apply, Distributor.inflight?_dropInflight] at found
      split at found
      · obtain ⟨list, held, rfl⟩ := Option.map_eq_some_iff.1 found
        exact ⟨[], List.Sublist.refl _, .inl rfl⟩
      · exact same _ found
  | allocate w vcpu =>
      obtain ⟨-, -, capacity, -, created⟩ := allowed
      rw [apply, Distributor.inflight?_setVcpu] at found
      split at found
      · obtain rfl := Option.some.inj found
        exact ⟨[], List.sublist_nil.2 (Vcpu.idle_of_create created).2.2, .inl rfl⟩
      · exact same _ found
  | release w =>
      rw [apply, Distributor.inflight?_setVcpu] at found
      split at found
      · cases found
      · exact same _ found
  | _ => exact same _ ((inflight?_apply (by trivial) v).symm.trans found)

theorem lists_of_not_links (other : ¬ a.Links) (allowed : a.Allowed d) {v : Nat} {entry : Entry}
    (lists : (a.apply d).Lists v entry) : d.Lists v entry := by
  obtain ⟨list', found, member⟩ := lists
  obtain ⟨entries, shorter, rfl | ⟨list, held, rfl⟩⟩ :=
    sublist_of_not_links other allowed found
  · cases shorter.subset member
  · exact ⟨list, held, shorter.subset member⟩

theorem ordered_of_not_links (other : ¬ a.Links) (allowed : a.Allowed d)
    {since : Nat → Nat → Nat} (ordered : d.Ordered since) : (a.apply d).Ordered since := by
  intro v list' found
  obtain ⟨entries, shorter, rfl | ⟨list, held, rfl⟩⟩ :=
    sublist_of_not_links other allowed found
  · exact List.Pairwise.nil.sublist shorter
  · exact (ordered v list held).sublist shorter

/-! ## Acts that claim one number -/

/-- Acts that put lines of the number `k` alone on lists, and take none off. Priorities in
the registers stay as they are, and so does what is enabled. -/
def Queues (k : Nat) : Act → Prop
  | link _ ref _ => ref.number = k
  | store _ _ f => ∀ rank, (f rank).priority = rank.priority
  | unlink .. | clear _ | allocate .. | release _ | touch _ .disabled => False
  | _ => True

theorem Queues.grows {k : Nat} (queues : a.Queues k) : a.Grows := by
  cases a with
  | touch ref report => cases report <;> trivial
  | _ => trivial

theorem Queues.fixed {k : Nat} :
    a.Queues k → match a with | allocate .. | release _ => False | _ => True := by
  intro queues
  cases a with
  | allocate | release => exact queues
  | _ => trivial

theorem Enables.queues {S : LineRef → Prop} {k : Nat} (enables : a.Enables S)
    (single : ∀ ref, S ref → ref.number = k) : a.Queues k := by
  cases a with
  | link v ref priority => exact single ref enables
  | ask | note | call | enable | retrigger => trivial
  | _ => exact enables.elim

theorem Delivers.queues {S : LineRef → Prop} {k : Nat} (delivers : a.Delivers S)
    (single : ∀ ref, S ref → ref.number = k) : a.Queues k :=
  delivers.enables.queues single

theorem Idles.queues (idles : a.Idles) (k : Nat) : a.Queues k := by
  cases a <;> trivial

theorem Idles.not_links (idles : a.Idles) : ¬ a.Links := by
  cases a <;> first | exact id | exact idles.elim

theorem Disables.not_links {S : LineRef → Prop} (disables : a.Disables S) : ¬ a.Links := by
  cases a <;> first | exact id | exact disables.elim

end Act

namespace Distributor

theorem priorityOf_of_rank {d d' : Distributor} {v : Nat}
    (same : ∀ index, (d'.rank? v index).map (·.priority) = (d.rank? v index).map (·.priority))
    (line : Nat) : d'.priorityOf v line = d.priorityOf v line := by
  have bytes : ∀ e : Distributor, ∀ index i,
      (e.rank? v index).bind (·.priority? i) =
        ((e.rank? v index).map (·.priority)).bind fun words =>
          (words[i / 4]?).map (Word.lane · i) := by
    intro e index i
    cases e.rank? v index <;> rfl
  rw [priorityOf, priorityOf, bytes, bytes, same]

end Distributor

theorem Act.Queues.priorityOf_apply {k : Nat} {a : Act} {d : Distributor} (queues : a.Queues k)
    (v line : Nat) : (a.apply d).priorityOf v line = d.priorityOf v line := by
  apply Distributor.priorityOf_of_rank
  intro index
  cases a with
  | store w other f =>
      rw [apply, Distributor.rank?_updateRank]
      split
      · rw [Option.map_map]
        exact congrArg (fun g => Option.map g _) (funext queues)
      · rfl
  | unlink | clear | allocate | release => exact queues.elim
  | _ => rw [Act.rank?_apply (by trivial)]

/-! ## A course of claims -/

/-- What claims of the number `k` have made of a machine. -/
structure Queued {σ : Type} (k : Nat) (m s : Machine σ) : Prop where
  consistent : Consistent s.dist
  /-- Nothing has left a list. -/
  old : ∀ {v entry}, m.dist.Lists v entry → s.dist.Lists v entry
  /-- What is new is the line `k`, at the priority of its registers. -/
  new : ∀ {v entry}, s.dist.Lists v entry →
    m.dist.Lists v entry ∨ entry.line = k ∧ entry.priority = m.dist.priorityOf v k
  /-- The registers have the priorities they had. -/
  bytes : ∀ v line, s.dist.priorityOf v line = m.dist.priorityOf v line
  /-- No VCPU has come or gone. -/
  alive : ∀ v, (s.dist.inflight? v).isSome = (m.dist.inflight? v).isSome

namespace Queued

variable {σ : Type} {k : Nat} {m s s' : Machine σ}

theorem refl (consistent : Consistent m.dist) : Queued k m m :=
  ⟨consistent, id, .inl, fun _ _ => rfl, fun _ => rfl⟩

theorem step {a : Act} (before : Queued k m s) (queues : a.Queues k) (step : Step s a s') :
    Queued k m s' := by
  refine ⟨step.dist ▸ before.consistent.apply step.allowed, fun lists => ?_, fun lists => ?_,
    fun v line => ?_, fun v => ?_⟩
  · rw [step.dist]
    exact queues.grows.lists step.allowed (before.old lists)
  · rw [step.dist] at lists
    by_cases links : a.Links
    · cases a with
      | link w ref priority =>
          obtain ⟨there, -, present, -, rfl⟩ := step.allowed
          obtain ⟨p, found⟩ := Option.isSome_iff_exists.1 there
          have number : (s.dist.descriptor ref).line = k := by
            rw [Distributor.descriptor_of_eq_some found]
            exact (before.consistent.numbered found).trans queues
          rcases (Act.lists_link_iff ref _ present).1 lists with ⟨rfl, rfl⟩ | lists
          · right
            rw [number, before.bytes]
            exact ⟨rfl, rfl⟩
          · exact before.new lists
      | _ => exact links.elim
    · exact before.new (Act.lists_of_not_links links step.allowed lists)
  · rw [step.dist, queues.priorityOf_apply, before.bytes]
  · rw [step.dist, Act.inflight?_isSome_apply v queues.fixed, before.alive]

/-- A line that is claimed was on no list of that VCPU. -/
theorem fresh_of_link (before : Queued k m s) {v : Nat} {ref : LineRef} {priority : Byte}
    (allowed : (Act.link v ref priority).Allowed s.dist) :
    s.dist.onList v ref.number = false := by
  obtain ⟨-, seen, -, free, -⟩ := allowed
  refine Bool.eq_false_iff.2 fun listed => ?_
  rw [(before.consistent.owner_of_onList listed seen).2] at free
  cases free

/-- The age of what is on lists, once lines have been claimed at the moment `now`. -/
def age (m : Machine σ) (since : Nat → Nat → Nat) (now v line : Nat) : Nat :=
  if m.dist.onList v line then since v line else now

theorem ordered_step {a : Act} (before : Queued k m s) (queues : a.Queues k)
    (step : Step s a s') {since : Nat → Nat → Nat} {now : Nat}
    (past : ∀ {v entry}, m.dist.Lists v entry → since v entry.line < now)
    (ordered : s.dist.Ordered (age m since now)) : s'.dist.Ordered (age m since now) := by
  rw [step.dist]
  by_cases links : a.Links
  · cases a with
    | link w ref priority =>
        have fresh := before.fresh_of_link step.allowed
        obtain ⟨p, found⟩ := Option.isSome_iff_exists.1 step.allowed.1
        have number : (s.dist.descriptor ref).line = ref.number := by
          rw [Distributor.descriptor_of_eq_some found]
          exact before.consistent.numbered found
        intro v list' found'
        rw [Act.apply, Distributor.inflight?_updateLine_updateInflight] at found'
        split at found'
        · rename_i same
          subst same
          obtain ⟨list, held, rfl⟩ := Option.map_eq_some_iff.1 found'
          refine Entry.pairwise_insertInto (ordered w list held) fun other member => ?_
          have lists : s.dist.Lists w other := ⟨list, held, member⟩
          have differs : other.line ≠ ref.number := fun same' => by
            rw [Distributor.onList_iff.2 ⟨other, lists, same'⟩] at fresh
            cases fresh
          -- The other entry was there before, so it is older; the line itself was not.
          have older : m.dist.Lists w other :=
            (before.new lists).resolve_right fun new => differs (new.1.trans queues.symm)
          have absent : m.dist.onList w ref.number = false := by
            refine Bool.eq_false_iff.2 fun listed => ?_
            obtain ⟨entry, lists', same'⟩ := Distributor.onList_iff.1 listed
            rw [Distributor.onList_iff.2 ⟨entry, before.old lists', same'⟩] at fresh
            cases fresh
          rw [number, age, age, if_pos (Distributor.onList_iff.2 ⟨other, older, rfl⟩),
            if_neg (by simp [absent])]
          exact past older
        · exact ordered v list' found'
    | _ => exact links.elim
  · exact Act.ordered_of_not_links links step.allowed ordered

end Queued

/-! ## What operations claim -/

namespace Machine

variable {σ : Type} [Host σ]

/-- Enabling a line claims it only if it is the line of the upcall. -/
theorem queues_enableLine {v : Nat} (m : Machine σ) (line : Nat)
    (present : (m.dist.vcpu? v).isSome = true) :
    Steps (Act.Queues m.dist.config.upcallLine) m (enableLine v m line) := by
  by_cases upcall : line = m.dist.config.upcallLine
  · refine (steps_enableLine m line present).mono fun a enables => enables.queues ?_
    rintro ref ⟨-, number⟩
    exact (List.mem_singleton.1 number).trans upcall
  · unfold enableLine
    split
    · exact .refl m
    · rename_i ref found
      obtain ⟨-, -, there⟩ := Distributor.lineRef?_eq_some_iff.1 found
      have shown := step_enable (m := m)
        (b := m.modify (·.updateLine ref (Descriptor.setEnabled true))) there rfl rfl
      have settings : (m.dist.updateLine ref (Descriptor.setEnabled true)).config =
          m.dist.config := congrArg Prod.fst (Distributor.shape_updateLine ..)
      simp only [showEnabled, dist_modify, settings, if_neg upcall]
      exact (Steps.single (K := Act.Queues _) shown trivial).trans
        ((steps_enablePhysical _ ref).mono fun a idle => idle.queues _)

theorem queues_enableMask {v rank : Nat} {mask : Word} (m : Machine σ)
    (present : (m.dist.vcpu? v).isSome = true) :
    Steps (Act.Queues m.dist.config.upcallLine) m (m.enableMask v mask rank).2 := by
  unfold enableMask
  split
  · exact .refl m
  · refine Steps.foldl (P := fun s => (s.dist.vcpu? v).isSome = true ∧
      s.dist.config = m.dist.config) ?_ ?_ m ⟨present, rfl⟩
    · rintro s line - ⟨present, settings⟩
      rw [← settings]
      exact queues_enableLine s line present
    · rintro s s' steps ⟨present, settings⟩
      refine ⟨present_of_steps (fun a queues => queues.fixed) steps present,
        (congrArg Prod.fst steps.shape).trans settings⟩

theorem queues_writeSetEnable (m : Machine σ) {v : Nat} (access : Access) (value : Word)
    (present : (m.dist.vcpu? v).isSome = true) :
    Steps (Act.Queues m.dist.config.upcallLine) m (m.writeSetEnable v access value).2 := by
  unfold writeSetEnable
  generalize rankIndex Bank.enable.words access.position = index
  simp only
  split
  · exact (steps_note m _ (by intros; simp)).mono fun a idle => idle.queues _
  · have stored : Steps (Act.Queues m.dist.config.upcallLine) m
        (m.modify (·.updateRank v index fun rank =>
          { rank with enable := rank.enable ||| value })) :=
      .single (a := .store v index _) ⟨trivial, rfl, (List.append_nil _).symm⟩ fun rank => rfl
    split
    · exact stored
    · have alive := present_of_steps (fun a queues => queues.fixed) stored present
      have settings : (m.dist.updateRank v index fun rank =>
          { rank with enable := rank.enable ||| value }).config = m.dist.config :=
        congrArg Prod.fst stored.shape
      have enabled := fun mask => @queues_enableMask σ _ v index mask _ alive
      rw [dist_modify, settings] at enabled
      exact stored.trans (enabled _)

end Machine

theorem Register.not_links_of_takes {d : Distributor} {v position : Nat} {value : Word}
    {register : Register} {a : Act} (takes : register.Takes d v position value a)
    (set : register ≠ .setEnable) (software : register ≠ .softwareInterrupt) : ¬ a.Links := by
  cases register with
  | setEnable => exact absurd rfl set
  | softwareInterrupt => exact absurd rfl software
  | control =>
      obtain idle | ⟨enabled, rfl⟩ := takes
      · exact idle.not_links
      · exact id
  | clearEnable =>
      obtain ⟨f, rfl⟩ | disables := takes
      · exact id
      · exact disables.not_links
  | clearActive | priority | targets | trigger =>
      obtain idle | ⟨index, f, rfl, -⟩ := takes
      · exact idle.not_links
      · exact id
  | _ => exact Act.Idles.not_links takes

namespace Machine

variable {σ : Type} [Host σ]

theorem links_or_queues_write (m : Machine σ) (v offset : Nat) (width : Width) (value : Word) :
    Steps (fun a => ¬ a.Links) m (m.write v offset width value).2 ∨
      ∃ k, Steps (Act.Queues k) m (m.write v offset width value).2 := by
  rcases m.write_cases v offset width value with
    ⟨-, -, still | decoded⟩ | ⟨present, group, -, reached⟩
  · rw [still]
    exact .inl (.refl m)
  · rw [decoded]
    exact .inl ((m.steps_decode v offset width).mono fun a idle => idle.not_links)
  · rw [reached]
    have noted := steps_note m (.registerWritten v group.name (offset - group.first) value)
      (by intros; simp)
    have written := (m.note (.registerWritten v group.name (offset - group.first) value)
      ).steps_writeRegister (group.access offset width false) value group.register present
    by_cases set : group.register = .setEnable
    · rw [set]
      exact .inr ⟨_, (noted.mono fun a idle => idle.queues _).trans
        (queues_writeSetEnable (m.note _) _ value present)⟩
    · by_cases software : group.register = .softwareInterrupt
      · rw [software] at written ⊢
        exact .inr ⟨_, (noted.mono fun a idle => idle.queues _).trans
          (written.mono fun a delivers => Act.Delivers.queues delivers fun _ => id)⟩
      · exact .inl ((noted.mono fun a idle => idle.not_links).trans
          (written.mono fun a takes => Register.not_links_of_takes takes set software))

/-- An operation claims no line, or lines of one number and takes none off a list. -/
theorem links_or_queues (m : Machine σ) (operation : Operation) :
    Steps (fun a => ¬ a.Links) m (m.perform operation).2 ∨
      ∃ k, Steps (Act.Queues k) m (m.perform operation).2 := by
  have steps := m.perform_steps operation
  cases operation with
  | initVcpu v =>
      refine .inl (steps.mono ?_)
      rintro a (idle | ⟨vcpu, rfl⟩)
      · exact idle.not_links
      · exact id
  | freeVcpu v =>
      refine .inl (steps.mono ?_)
      rintro a (idle | rfl | rfl)
      · exact idle.not_links
      · exact id
      · exact id
  | clearPending v =>
      refine .inl (steps.mono ?_)
      rintro a (idle | rfl)
      · exact idle.not_links
      · exact id
  | read | readAt | inflightLines | pendingStatus =>
      exact .inl (steps.mono fun a idle => Act.Idles.not_links idle)
  | write v offset width value => exact m.links_or_queues_write v offset width value
  | writeAt v address width value =>
      show Steps _ m (m.writeAt v address width value).2 ∨
        ∃ k, Steps (Act.Queues k) m (m.writeAt v address width value).2
      unfold writeAt
      split
      · exact .inl (.refl m)
      · exact m.links_or_queues_write v _ width value
  | inject v line =>
      refine .inr ⟨line, steps.mono fun a delivers => Act.Delivers.queues delivers ?_⟩
      rintro ref ⟨-, number⟩
      exact List.mem_singleton.1 number
  | injectSpi | dispatchSoftware =>
      exact .inr ⟨_, steps.mono fun a delivers => Act.Delivers.queues delivers fun _ => id⟩
  | enableLines v mask rank =>
      show _ ∨ ∃ k, Steps (Act.Queues k) m (m.enableLines v mask rank).2
      unfold enableLines
      split
      · exact .inr ⟨0, .refl m⟩
      · rename_i vcpu required
        have present := Distributor.present_of_requireVcpu required
        exact .inr ⟨_, queues_enableMask m present⟩
  | disableLines => exact .inl (steps.mono fun a takes => takes.2.not_links)
  | setVisible | setActive | unroutePhysical =>
      refine .inl (steps.mono ?_)
      rintro a ⟨ref, -, rfl⟩
      exact id
  | routePhysical =>
      refine .inl (steps.mono ?_)
      rintro a (idle | ⟨ref, -, rfl⟩)
      · exact idle.not_links
      · exact id
  | retire =>
      refine .inl (steps.mono ?_)
      rintro a ⟨ref, -, takes⟩
      split at takes
      · subst takes
        exact id
      · rcases takes with rfl | rfl <;> exact id

end Machine

/-! ## One operation -/

namespace Queued

variable {σ : Type} [Host σ] {m : Machine σ}

/-- After an operation lists are in order, where what it has claimed is the newest. What
is new on a list was not on it before, and has the priority of its registers. -/
theorem ordered_perform (consistent : Consistent m.dist) {since : Nat → Nat → Nat} {now : Nat}
    (past : ∀ {v entry}, m.dist.Lists v entry → since v entry.line < now)
    (ordered : m.dist.Ordered since) (operation : Operation) :
    (m.perform operation).2.dist.Ordered (age m since now) ∧
      ∀ {v entry}, (m.perform operation).2.dist.Lists v entry → m.dist.Lists v entry ∨
        m.dist.onList v entry.line = false ∧ (m.dist.vcpu? v).isSome = true ∧
          entry.priority = m.dist.priorityOf v entry.line ∧
          entry.priority = (m.perform operation).2.dist.priorityOf v entry.line := by
  have start : m.dist.Ordered (age m since now) := ordered.congr fun lists =>
    if_pos (Distributor.onList_iff.2 ⟨_, lists, rfl⟩)
  rcases m.links_or_queues operation with steps | ⟨k, steps⟩
  · have kept := steps.kept (P := fun s => s.dist.Ordered (age m since now) ∧
        ∀ {v entry}, s.dist.Lists v entry → m.dist.Lists v entry)
      (fun other step before => step.dist ▸
        ⟨Act.ordered_of_not_links other step.allowed before.1,
          fun lists => before.2 (Act.lists_of_not_links other step.allowed lists)⟩) ⟨start, id⟩
    exact ⟨kept.1, fun lists => .inl (kept.2 lists)⟩
  · obtain ⟨queued, order⟩ := steps.kept
      (P := fun s => Queued k m s ∧ s.dist.Ordered (age m since now))
      (fun queues step before => ⟨before.1.step queues step,
        before.1.ordered_step queues step past before.2⟩) ⟨.refl consistent, start⟩
    refine ⟨order, fun {v entry} lists => ?_⟩
    rw [Classical.or_iff_not_imp_left]
    intro absent
    obtain ⟨rfl, priority⟩ := (queued.new lists).resolve_left absent
    refine ⟨Bool.eq_false_iff.2 fun listed => absent ?_, ?_, priority, ?_⟩
    · obtain ⟨other, held, same⟩ := Distributor.onList_iff.1 listed
      exact queued.consistent.entry_unique (queued.old held) lists same ▸ held
    · rw [← Distributor.inflight?_isSome, ← queued.alive, Distributor.inflight?_isSome]
      exact lists.present
    · rw [queued.bytes, priority]

end Queued

/-- Entries in strict order are determined by which they are. -/
theorem Entry.eq_of_pairwise {since : Nat → Nat} {first second : List Entry}
    (ordered : first.Pairwise (Before since)) (ordered' : second.Pairwise (Before since))
    (same : ∀ entry, entry ∈ first ↔ entry ∈ second) : first = second := by
  have distinct : ∀ {entries : List Entry}, entries.Pairwise (Before since) → entries.Nodup :=
    fun order => order.imp fun before eq => (eq ▸ before).asymm (eq ▸ before)
  exact ((List.perm_ext_iff_of_nodup (distinct ordered) (distinct ordered')).2 same).eq_of_pairwise
    (fun _ _ _ _ before before' => absurd before' before.asymm) ordered ordered'

namespace Machine

variable {σ : Type} [Host σ]

/-- The entries that a list has before and after an operation stand in one order. -/
theorem same_order {m : Machine σ} (consistent : Consistent m.dist)
    {since : Nat → Nat → Nat} {now : Nat}
    (past : ∀ {v entry}, m.dist.Lists v entry → since v entry.line < now)
    (ordered : m.dist.Ordered since) (operation : Operation) {v : Nat} {list list' : Inflight}
    (found : m.dist.inflight? v = some list)
    (found' : (m.perform operation).2.dist.inflight? v = some list') :
    list.entries.filter (·.line ∈ list'.lines) = list'.entries.filter (·.line ∈ list.lines) := by
  obtain ⟨order, new⟩ := Queued.ordered_perform consistent past ordered operation
  have start : m.dist.Ordered (Queued.age m since now) := ordered.congr fun lists =>
    if_pos (Distributor.onList_iff.2 ⟨_, lists, rfl⟩)
  -- An entry that is there afterwards, of a line that was there before, was there before.
  have old : ∀ entry ∈ list'.entries, entry.line ∈ list.lines → entry ∈ list.entries := by
    intro entry member common
    obtain ⟨other, held, same⟩ := List.mem_map.1 common
    have on := Distributor.onList_iff.2 ⟨other, ⟨list, found, held⟩, same⟩
    obtain ⟨list'', found'', there⟩ := (new ⟨list', found', member⟩).resolve_right
      fun fresh => Bool.false_ne_true (fresh.1.symm.trans on)
    exact Option.some.inj (found''.symm.trans found) ▸ there
  refine Entry.eq_of_pairwise ((start v list found).filter _) ((order v list' found').filter _) ?_
  intro entry
  simp only [List.mem_filter, decide_eq_true_eq]
  constructor
  · rintro ⟨member, common⟩
    obtain ⟨other, held, same⟩ := List.mem_map.1 common
    have line : entry.line ∈ list.lines := List.mem_map_of_mem member
    have there := old other held (same ▸ line)
    obtain rfl := consistent.entry_unique ⟨list, found, there⟩ ⟨list, found, member⟩ same
    exact ⟨held, line⟩
  · rintro ⟨member, common⟩
    exact ⟨old entry member common, List.mem_map_of_mem member⟩

/-! ## Histories -/

/-- The operation number `n` of a history has put an entry on the list of `v`. -/
structure LinkedAt (m : Machine σ) (operations : List Operation) (v : Nat) (entry : Entry)
    (n : Nat) : Prop where
  /-- It is one of the operations. -/
  inside : n < operations.length
  /-- The line was not on the list before. -/
  absent : (m.run (operations.take n)).dist.onList v entry.line = false
  /-- The entry has the priority that the registers have for the line when the operation
  begins and when it ends. -/
  byte : ∀ k, k = n ∨ k = n + 1 → ∃ rank,
    (m.run (operations.take k)).dist.rank? v (rankOfLine entry.line) = some rank ∧
      rank.priority? (entry.line % linesPerRank) = some entry.priority
  /-- Ever since, the entry is on the list and the descriptor of the line has its priority. -/
  stays : ∀ k, n < k → k ≤ operations.length →
    (m.run (operations.take k)).dist.Lists v entry ∧
      ∃ p, (m.run (operations.take k)).dist.line? v entry.line = some p ∧
        p.owner = some v ∧ p.priority = entry.priority

/-- Lists are in the order of delivery after a history, and an operation keeps the order
of what it leaves on a list. -/
structure DeliveryOrder (m : Machine σ) (operations : List Operation) : Prop where
  /-- Lists are ordered by priority, and by the operations that put the entries on them. -/
  ordered : ∃ since : Nat → Nat → Nat, ∀ v list,
    (m.run operations).dist.inflight? v = some list →
      list.entries.Pairwise (Entry.Before (since v)) ∧
        ∀ entry ∈ list.entries, m.LinkedAt operations v entry (since v entry.line)
  /-- What a list has before and after one more operation stands in one order. -/
  stable : ∀ (operation : Operation) (v : Nat) (list list' : Inflight),
    (m.run operations).dist.inflight? v = some list →
      ((m.run operations).perform operation).2.dist.inflight? v = some list' →
        list.entries.filter (·.line ∈ list'.lines) = list'.entries.filter (·.line ∈ list.lines)

theorem run_take {m : Machine σ} {operations : List Operation} {k : Nat} (operation : Operation)
    (early : k ≤ operations.length) :
    m.run ((operations ++ [operation]).take k) = m.run (operations.take k) := by
  rw [List.take_append_of_le_length early]

theorem run_take_all {m : Machine σ} {operations : List Operation} {k : Nat}
    (all : operations.length ≤ k) : m.run (operations.take k) = m.run operations := by
  rw [List.take_of_length_le all]

omit [Host σ] in
/-- What is on a list has an owner and a priority that fit. -/
theorem line?_of_lists {d : Distributor} (consistent : Consistent d) {v : Nat} {entry : Entry}
    (lists : d.Lists v entry) :
    ∃ p, d.line? v entry.line = some p ∧ p.owner = some v ∧ p.priority = entry.priority := by
  obtain ⟨ref, p, number, seen, found, owner, priority⟩ := consistent.listed lists
  exact ⟨p, Distributor.line?_eq_some_iff.2 ⟨ref, number, seen, found⟩, owner, priority⟩

theorem LinkedAt.snoc {m : Machine σ} {operations : List Operation} {v n : Nat} {entry : Entry}
    (linked : m.LinkedAt operations v entry n) (operation : Operation)
    (consistent : Consistent (m.run (operations ++ [operation])).dist)
    (lists : (m.run (operations ++ [operation])).dist.Lists v entry) :
    m.LinkedAt (operations ++ [operation]) v entry n where
  inside := by
    have := linked.inside
    rw [List.length_append]
    omega
  absent := by
    rw [run_take operation (Nat.le_of_lt linked.inside)]
    exact linked.absent
  byte := by
    intro k near
    have := linked.inside
    rw [run_take operation (by omega)]
    exact linked.byte k near
  stays := by
    intro k late inside
    by_cases early : k ≤ operations.length
    · rw [run_take operation early]
      exact linked.stays k late early
    · rw [run_take_all (by simp at inside ⊢; omega)]
      exact ⟨lists, line?_of_lists consistent lists⟩

/-- Every list is in order after a history, and every entry on it has its operation. -/
theorem ordered_run {config : Config} {host : σ} {m : Machine σ}
    (started : Machine.start config host = .ok m) (operations : List Operation) :
    ∃ since : Nat → Nat → Nat, (m.run operations).dist.Ordered since ∧
      ∀ {v entry}, (m.run operations).dist.Lists v entry →
        m.LinkedAt operations v entry (since v entry.line) := by
  induction operations using List.reverseRecOn with
  | nil =>
      obtain ⟨-, rfl⟩ := start_eq_ok_iff.1 started
      have empty : ∀ v, (Distributor.create config).inflight? v = none := by
        intro v
        simp [Distributor.inflight?, Distributor.vcpu?_create]
      refine ⟨fun _ _ => 0, fun v list found => ?_, fun {v entry} lists => ?_⟩
      · rw [run_nil] at found
        cases (empty v).symm.trans found
      · obtain ⟨list, found, -⟩ := lists
        cases (empty v).symm.trans found
  | append_singleton operations operation ih =>
      obtain ⟨since, ordered, linked⟩ := ih
      have consistent := consistent_run started operations
      have after := consistent_run started (operations ++ [operation])
      have done : m.run (operations ++ [operation]) =
          ((m.run operations).perform operation).2 := by
        rw [run_append]
        rfl
      have past : ∀ {v entry}, (m.run operations).dist.Lists v entry →
          since v entry.line < operations.length := fun lists => (linked lists).inside
      obtain ⟨order, new⟩ := Queued.ordered_perform consistent past ordered operation
      refine ⟨Queued.age (m.run operations) since operations.length, ?_, ?_⟩
      · rw [done]
        exact order
      · intro v entry lists
        obtain ⟨p, looked, -, -⟩ := line?_of_lists after lists
        obtain ⟨ref, number, seen, found⟩ := Distributor.line?_eq_some_iff.1 looked
        rcases new (done ▸ lists) with old | ⟨absent, present, before, byte⟩
        · rw [Queued.age, if_pos (Distributor.onList_iff.2 ⟨entry, old, rfl⟩)]
          exact (linked old).snoc operation after lists
        · rw [Queued.age, absent, if_neg Bool.false_ne_true]
          have there : ((m.run operations).dist.descriptor? ref).isSome = true :=
            Distributor.descriptor?_isSome_of_shape
              ((shape_run started _).trans (shape_run started _).symm) seen present
              (Option.isSome_iff_exists.2 ⟨p, found⟩)
          refine ⟨by simp, ?_, ?_, ?_⟩
          · rw [run_take operation (Nat.le_refl _), List.take_length]
            exact absent
          · rintro k (rfl | rfl)
            · rw [run_take operation (Nat.le_refl _), List.take_length, before, ← number]
              exact Distributor.rank?_of_line (ranked_run started _) seen there
            · rw [run_take_all (by simp), byte, ← done, ← number]
              exact Distributor.rank?_of_line (ranked_run started _) seen
                (Option.isSome_iff_exists.2 ⟨p, found⟩)
          · intro k late inside
            rw [run_take_all (by simp; omega)]
            exact ⟨lists, line?_of_lists after lists⟩

/-- After every history lists are in the order of delivery. -/
theorem delivery_order {config : Config} {host : σ} {m : Machine σ}
    (started : Machine.start config host = .ok m) (operations : List Operation) :
    m.DeliveryOrder operations := by
  obtain ⟨since, ordered, linked⟩ := ordered_run started operations
  refine ⟨⟨since, fun v list found => ⟨ordered v list found, fun entry member => ?_⟩⟩, ?_⟩
  · exact linked ⟨list, found, member⟩
  · intro operation v list list' found found'
    exact same_order (consistent_run started operations) (fun lists => (linked lists).inside)
      ordered operation found found'

/-- Line 6 is raised first, line 5 at the same priority, and line 7 at a smaller one. That
the guest rewrites the priorities and raises line 6 again moves nothing. -/
theorem delivery_order_rewritten :
    let m : Machine SteadyHost := .fresh (.forGuest 1) { up := [0] }
    let operations : List Operation := [.initVcpu 0, .write 0 0x404 .word 0x10404040,
      .inject 0 6, .inject 0 5, .inject 0 7, .write 0 0x406 .byte 0xff, .inject 0 6]
    (m.run operations).dist.inflightLines 0 = .ok [7, 6, 5] ∧ m.DeliveryOrder operations := by
  intro m operations
  have started : Machine.start (.forGuest 1) ({ up := [0] } : SteadyHost) = .ok m := rfl
  exact ⟨by decide +kernel, delivery_order started operations⟩

end Machine

end VirtualGic
