/-
# Proofs.HandingBack — what a VCPU holds is handed back

The lines on a VCPU's list are its own and shared ones in any mixture. When the list is
cleared, each of them is found again under its number, as that VCPU sees it, and given back.
`HandsBack` says what that leaves: the lines of the list have no owner and are enabled or not,
and all the rest of the distributor is as it was.

Releasing the VCPU is clearing its list first, so no line is left in the hands of a VCPU that
is gone (`Frees.unnamed`), and a shared line that it held can be raised on any other
(`Frees.requeued`). A VCPU that is made anew has nothing of the one before it (`Renews`).
-/
import VirtualGic.Proofs.Addressing
import VirtualGic.Proofs.Apart
import VirtualGic.Proofs.Faultless
import VirtualGic.Proofs.Raised

namespace VirtualGic

set_option autoImplicit false

/-! ## Lines of a list -/

/-- The line on no list. Nothing of its delivery is left but whether it is enabled. -/
def Descriptor.handedBack (p : Descriptor) : Descriptor :=
  { p with owner := none, status := { enabled := p.status.enabled } }

theorem Descriptor.handBack_of_owner {p : Descriptor} {v : Nat} (owned : p.owner = some v) :
    p.handBack v = p.handedBack := by
  simp only [handBack, release, owned, if_true, settle, handedBack, Status.settled]

/-- The lines that are there whether VCPU `v` has state or not. -/
def LineRef.Outlives (v : Nat) : LineRef → Prop
  | banked w _ => w ≠ v
  | shared _ => True

namespace Distributor

/-- Whether the line is on the list of VCPU `v`. -/
def Holds (d : Distributor) (v : Nat) (ref : LineRef) : Prop :=
  ref.SeenBy v ∧ d.onList v ref.number = true

instance (d : Distributor) (v : Nat) (ref : LineRef) : Decidable (d.Holds v ref) :=
  inferInstanceAs (Decidable (_ ∧ _))

/-- VCPU `v` hands back its list between `d` and `d'`. Nothing else happens to the lines in
`S`, to the other VCPUs and to what VCPUs share. -/
structure HandsBack (v : Nat) (S : LineRef → Prop) (d d' : Distributor) : Prop where
  held : ∀ {ref p}, S ref → d.Holds v ref → d.descriptor? ref = some p →
    d'.descriptor? ref = some p.handedBack
  others : ∀ {ref}, S ref → ¬ d.Holds v ref → d'.descriptor? ref = d.descriptor? ref
  vcpus : ∀ {w}, w ≠ v → d'.vcpu? w = d.vcpu? w
  sharedRanks : d'.sharedRanks = d.sharedRanks
  enabled : d'.enabled = d.enabled
  shape : d'.shape = d.shape

variable {d d' : Distributor} {v : Nat} {ref : LineRef}

theorem holds_iff {list : Inflight} (held : d.inflight? v = some list) :
    d.Holds v ref ↔ ref.SeenBy v ∧ ref.number ∈ list.lines := by
  rw [Holds, onList, held, Option.any_some, Inflight.contains_iff_mem_lines]

theorem HandsBack.setVcpu {S : LineRef → Prop} (before : HandsBack v S d d')
    (state : Option Vcpu) :
    HandsBack v (fun ref => S ref ∧ ref.Outlives v) d (d'.setVcpu v state) := by
  have lines : ∀ {ref : LineRef}, ref.Outlives v →
      (d'.setVcpu v state).descriptor? ref = d'.descriptor? ref := by
    intro ref outlives
    cases ref with
    | banked w line =>
        rw [descriptor?_setVcpu_banked, if_neg]
        rintro ⟨rfl, -⟩
        exact outlives rfl
    | shared index => rfl
  refine ⟨fun inside holds found => ?_, fun inside other => ?_, fun ne => ?_,
    before.sharedRanks, before.enabled, ?_⟩
  · rw [lines inside.2]
    exact before.held inside.1 holds found
  · rw [lines inside.2]
    exact before.others inside.1 other
  · rw [vcpu?_setVcpu, if_neg fun both => ne both.1.symm]
    exact before.vcpus ne
  · rw [shape_setVcpu]
    exact before.shape

theorem HandsBack.mono {S T : LineRef → Prop} (within : ∀ ref, S ref → T ref)
    (before : HandsBack v T d d') : HandsBack v S d d' :=
  { before with
    held := fun inside => before.held (within _ inside)
    others := fun inside => before.others (within _ inside) }

/-- Clearing a list hands back what is on it. -/
theorem handsBack_dropInflight (consistent : Consistent d) {list : Inflight}
    (held : d.inflight? v = some list) :
    HandsBack v (fun _ => True) d (d.dropInflight v) := by
  have lines := descriptor?_dropInflight held
  refine ⟨?_, ?_, ?_, ?_, ?_, shape_dropInflight d v⟩
  · intro ref p _ holds found
    obtain ⟨seen, member⟩ := (holds_iff held).1 holds
    have owned := consistent.owner_of_mem_lines held member seen found
    rw [lines, if_pos ⟨seen, member⟩, found, Option.map_some, Descriptor.handBack_of_owner owned]
  · intro ref _ other
    rw [lines, if_neg fun both => other ((holds_iff held).2 both)]
  · intro w ne
    refine vcpu?_of_readings (rank?_dropInflight d v w 0) (fun line => ?_) ?_
    · rw [lines, if_neg fun both => ne both.1]
    · rw [inflight?_dropInflight, if_neg ne.symm]
  · exact @dropInflight_kept _ (·.sharedRanks) (fun _ ref _ => by cases ref <;> rfl)
      (fun _ _ _ => rfl) d v
  · exact @dropInflight_kept _ (·.enabled) enabled_updateLine (fun _ _ _ => rfl) d v

end Distributor

/-! ## Lines that nobody raises -/

/-- Whether the operation may put the line `ref` on a list. -/
def Operation.Raises (d : Distributor) (ref : LineRef) (operation : Operation) : Prop :=
  ∃ w priority, operation.Takes d (.link w ref priority)

/-- A line that nobody holds gets no owner from an act that does not claim it. -/
theorem Act.unheld_apply {a : Act} {d : Distributor} {ref : LineRef}
    (unclaimed : ∀ w priority, a ≠ .link w ref priority) (allowed : a.Allowed d)
    (before : ∀ p, d.descriptor? ref = some p → p.owner = none) :
    ∀ p, (a.apply d).descriptor? ref = some p → p.owner = none := by
  intro p' found
  by_cases quiet : a.Quiet
  · rcases quiet.free_or_asksLess allowed found with ⟨free, -⟩ | ⟨p, known, owners, -⟩
    · exact free
    · exact owners.trans (before p known)
  · cases a with
    | link w target priority =>
        have other : target ≠ ref := by
          rintro rfl
          exact unclaimed w priority rfl
        rw [descriptor?_apply_of_change? rfl, if_neg other] at found
        exact before p' found
    | enable target =>
        rw [descriptor?_apply_of_change? rfl] at found
        split at found
        · obtain ⟨p, known, rfl⟩ := Option.map_eq_some_iff.1 found
          exact before p known
        · exact before p' found
    | touch target report =>
        rw [descriptor?_apply_of_change? rfl] at found
        split at found
        · obtain ⟨p, known, rfl⟩ := Option.map_eq_some_iff.1 found
          exact (report.apply_owner p).trans (before p known)
        · exact before p' found
    | _ => exact absurd trivial quiet

namespace Machine

variable {σ : Type} [Host σ]

/-- No operation of a history raises the line `ref`. -/
def Unraised (ref : LineRef) : List Operation → Machine σ → Prop
  | [], _ => True
  | operation :: rest, m =>
      ¬ operation.Raises m.dist ref ∧ Unraised ref rest (m.perform operation).2

/-- The line `ref`, raised on VCPU `w`, is queued there at the priority it has now. -/
structure Queues (s : Machine σ) (w : Nat) (ref : LineRef) : Prop where
  accepted : (s.inject w ref.number).1 = .ok ()
  claimed : ∃ p, (s.inject w ref.number).2.dist.descriptor? ref = some p ∧
    p.owner = some w ∧ p.status.queued = true ∧ p.priority = s.dist.priorityOf w ref.number
  listed : (s.inject w ref.number).2.dist.inflight? w =
    (s.dist.inflight? w).map (·.insert ref.number (s.dist.priorityOf w ref.number))

/-- VCPU `v` drops what is inflight on it. -/
structure Clears (s : Machine σ) (v : Nat) : Prop where
  accepted : (s.clearPending v).1 = .ok ()
  handsBack : s.dist.HandsBack v (fun _ => True) (s.clearPending v).2.dist
  rank : (s.clearPending v).2.dist.rank? v 0 = s.dist.rank? v 0
  emptied : ∃ list, s.dist.inflight? v = some list ∧
    (s.clearPending v).2.dist.inflight? v = some (.empty list.capacity)
  calls : (s.clearPending v).2.calls = s.calls ++ [.clear v]

/-- VCPU `v` is released. -/
structure Frees (s : Machine σ) (v : Nat) : Prop where
  accepted : (s.freeVcpu v).1 = .ok ()
  absent : (s.freeVcpu v).2.dist.vcpu? v = none
  handsBack : s.dist.HandsBack v (·.Outlives v) (s.freeVcpu v).2.dist
  /-- No line is left in its hands. -/
  unnamed : ∀ {ref p}, (s.freeVcpu v).2.dist.descriptor? ref = some p → p.owner ≠ some v
  /-- A shared line that it held is queued on whichever VCPU it is raised on next. -/
  requeued : ∀ {index}, s.dist.Holds v (.shared index) → ∀ {later},
    Unraised (.shared index) later (s.freeVcpu v).2 → ∀ {w},
      (((s.freeVcpu v).2.run later).dist.vcpu? w).isSome = true →
        (((s.freeVcpu v).2.run later).online w).1 = true →
          ((s.freeVcpu v).2.run later).Queues w (.shared index)
  calls : (s.freeVcpu v).2.calls = s.calls ++ [.clear v]

/-- VCPU `v` is released and made again. -/
structure Renews (s : Machine σ) (v : Nat) : Prop where
  accepted : ((s.freeVcpu v).2.initVcpu v).1 = .ok ()
  renewed : ((s.freeVcpu v).2.initVcpu v).2.dist.vcpu? v = some {
    rank := Vcpu.privateRank v
    lines := Vector.ofFn fun line => Descriptor.idle line
    inflight := .empty (linesPerRank + s.dist.config.spis) }
  handsBack : s.dist.HandsBack v (·.Outlives v) ((s.freeVcpu v).2.initVcpu v).2.dist
  calls : ((s.freeVcpu v).2.initVcpu v).2.calls = s.calls ++ [.clear v]

/-! ## The machine after each of the three -/

variable {s : Machine σ} {v : Nat}

theorem clearPending_of_present (present : (s.dist.vcpu? v).isSome = true) :
    s.clearPending v =
      (.ok (), ((s.modify (·.dropInflight v)).call (.clear v)).note (.pendingCleared v)) := by
  obtain ⟨vcpu, there⟩ := Option.isSome_iff_exists.1 present
  unfold clearPending
  rw [Distributor.requireVcpu_eq_ok_iff.2 there]

theorem freeVcpu_of_present (present : (s.dist.vcpu? v).isSome = true) :
    s.freeVcpu v =
      (.ok (), (((((s.modify (·.dropInflight v)).call (.clear v)).note (.pendingCleared v)).modify
        (·.setVcpu v none)).note (.vcpuReleased v))) := by
  unfold freeVcpu
  rw [clearPending_of_present present]

theorem clears_of_consistent (consistent : Consistent s.dist)
    (present : (s.dist.vcpu? v).isSome = true) : s.Clears v := by
  obtain ⟨list, held⟩ : ∃ list, s.dist.inflight? v = some list := by
    rwa [← Option.isSome_iff_exists, Distributor.inflight?_isSome]
  have cleared := clearPending_of_present present
  refine ⟨?_, ?_, ?_, ⟨list, held, ?_⟩, ?_⟩
  · rw [cleared]
  · rw [cleared]
    exact Distributor.handsBack_dropInflight consistent held
  · rw [cleared]
    exact Distributor.rank?_dropInflight s.dist v v 0
  · rw [cleared, dist_note, dist_call, dist_modify, Distributor.inflight?_dropInflight, if_pos rfl,
      held]
    rfl
  · rw [cleared, calls_note, calls_call]
    rfl

theorem queues_of_unheld (consistent : Consistent s.dist) {w index : Nat}
    (there : (s.dist.descriptor? (.shared index)).isSome = true)
    (unheld : ∀ p, s.dist.descriptor? (.shared index) = some p → p.owner = none)
    (present : (s.dist.vcpu? w).isSome = true) (up : (s.online w).1 = true) :
    s.Queues w (.shared index) := by
  obtain ⟨p, found⟩ := Option.isSome_iff_exists.1 there
  have seen : (LineRef.shared index).SeenBy w := trivial
  obtain ⟨accepted, claimed, listed⟩ :=
    inject_of_free consistent seen found present (unheld p found) up
  obtain ⟨ref, number, seen', claimed⟩ := Distributor.line?_eq_some_iff.1 claimed
  obtain rfl := LineRef.eq_of_seenBy seen' seen number
  exact ⟨accepted, ⟨_, claimed, rfl, rfl, rfl⟩, listed⟩

theorem shape_history (s : Machine σ) (later : List Operation) :
    (s.run later).dist.shape = s.dist.shape :=
  run_induction (P := fun m => m.dist.shape = s.dist.shape)
    (fun m operation before => (m.shape_perform operation).trans before) rfl later

/-- Across a history that does not raise the line, it stays with nobody. -/
theorem unheld_run {ref : LineRef} {later : List Operation} (unraised : Unraised ref later s)
    (before : ∀ p, s.dist.descriptor? ref = some p → p.owner = none) :
    ∀ p, (s.run later).dist.descriptor? ref = some p → p.owner = none := by
  induction later generalizing s with
  | nil => exact before
  | cons operation rest ih =>
      obtain ⟨idle, unraised⟩ := unraised
      refine ih unraised ?_
      refine (s.perform_steps operation).kept (P := fun m =>
        ∀ p, m.dist.descriptor? ref = some p → p.owner = none) ?_ before
      rintro b a c takes step before
      rw [step.dist]
      refine a.unheld_apply ?_ step.allowed before
      rintro w priority rfl
      exact idle ⟨w, priority, takes⟩

theorem frees_of_consistent (consistent : Consistent s.dist)
    (present : (s.dist.vcpu? v).isSome = true) : s.Frees v := by
  have cleared := (clears_of_consistent consistent present).handsBack
  rw [clearPending_of_present present, dist_note, dist_call, dist_modify] at cleared
  have freed := freeVcpu_of_present present
  have inside := Distributor.lt_of_present present
  have dist : (s.freeVcpu v).2.dist = (s.dist.dropInflight v).setVcpu v none := by rw [freed]; rfl
  have room : v < (s.dist.dropInflight v).vcpus.size := by
    have shape := s.dist.shape_dropInflight v
    simp only [Distributor.shape, Prod.mk.injEq] at shape
    rwa [shape.2.2.2]
  have absent : (s.freeVcpu v).2.dist.vcpu? v = none := by
    rw [dist, Distributor.vcpu?_setVcpu, if_pos ⟨rfl, room⟩]
  have handsBack : s.dist.HandsBack v (·.Outlives v) (s.freeVcpu v).2.dist := by
    rw [dist]
    exact (cleared.setVcpu none).mono fun _ outlives => ⟨trivial, outlives⟩
  have after : Consistent (s.freeVcpu v).2.dist := consistent.perform (.freeVcpu v)
  refine ⟨by rw [freed], absent, handsBack, ?_, ?_, ?_⟩
  · intro ref p found owned
    have alive := (after.owned found owned).2.present
    rw [absent] at alive
    cases alive
  · intro index holds later unraised w alive up
    have seen : (LineRef.shared index).SeenBy w := trivial
    have known := (consistent.owner_of_onList holds.2 holds.1).1
    have outlives : (LineRef.shared index).Outlives v := trivial
    have given := handsBack.held outlives holds known
    refine queues_of_unheld (after.run later) ?_ (unheld_run unraised ?_) alive up
    · refine Distributor.descriptor?_isSome_of_shape ?_ seen alive (by rw [given]; rfl)
      exact shape_history _ later
    · intro p found
      rw [given] at found
      obtain rfl := Option.some.inj found
      rfl
  · rw [freed, calls_note]
    exact (calls_note _ _).trans (calls_call _ _)

omit [Host σ] in
theorem initVcpu_of_absent {lines : Nat} (counted : s.dist.config.lineCount = .ok lines)
    (inside : v < s.dist.vcpus.size) (few : v < maxVcpus) (absent : s.dist.vcpu? v = none) :
    s.initVcpu v = (.ok (), (s.modify (·.setVcpu v (some {
      rank := Vcpu.privateRank v
      lines := Vector.ofFn fun line => Descriptor.idle line
      inflight := .empty lines }))).note (.vcpuAllocated v)) := by
  have slot : s.dist.vcpus[v]? = some none := by
    rw [Array.getElem?_eq_getElem inside]
    simpa [Distributor.vcpu?, inside] using absent
  unfold initVcpu Vcpu.create
  rw [counted]
  simp only [slot, if_pos few]

theorem renews_of_frees (bounded : s.dist.Bounded) (inside : v < s.dist.vcpus.size)
    (frees : s.Frees v) : s.Renews v := by
  have shape := frees.handsBack.shape
  simp only [Distributor.shape, Prod.mk.injEq] at shape
  obtain ⟨config, -, -, room⟩ := shape
  obtain ⟨lines, counted⟩ := bounded.counted
  have number : lines = linesPerRank + s.dist.config.spis := by
    unfold Config.lineCount at counted
    split at counted
    · exact (Except.ok.inj counted).symm
    · cases counted
  have made := initVcpu_of_absent (config ▸ counted) (room ▸ inside)
    (Nat.lt_of_lt_of_le inside bounded.room) frees.absent
  refine ⟨?_, ?_, ?_, ?_⟩
  · rw [made]
  · rw [made, dist_note, dist_modify, Distributor.vcpu?_setVcpu,
      if_pos ⟨rfl, room ▸ inside⟩, number]
  · rw [made]
    exact (frees.handsBack.setVcpu _).mono fun _ outlives => ⟨outlives, outlives⟩
  · rw [made, calls_note]
    exact frees.calls

/-- After every history, what a VCPU holds is handed back when its list is cleared and when it
is released, and nothing of it is left to the VCPU that is made in its place. -/
theorem hands_back_run {config : Config} {host : σ} {m : Machine σ}
    (started : Machine.start config host = .ok m) (operations : List Operation) {v : Nat}
    (present : ((m.run operations).dist.vcpu? v).isSome = true) :
    (m.run operations).Clears v ∧ (m.run operations).Frees v ∧ (m.run operations).Renews v := by
  have consistent := consistent_run started operations
  have frees := frees_of_consistent consistent present
  exact ⟨clears_of_consistent consistent present, frees,
    renews_of_frees (bounded_run started operations) (Distributor.lt_of_present present) frees⟩

/-- VCPU 1 holds a private line and two shared ones, and VCPU 0 holds a third. One of the two
is enabled and in a list register. It is raised on VCPU 0, and the other one on VCPU 1
itself, after that was released and made again. -/
theorem hands_back_run_mixed_list :
    let m : Machine SteadyHost := .fresh (.forHardware 2 64) { up := [0, 1] }
    let s := m.run [.initVcpu 0, .initVcpu 1, .enableLines 1 0x100 1, .inject 1 40, .inject 1 3,
      .setVisible 1 40 true, .inject 1 41, .inject 0 42]
    let t := (s.freeVcpu 1).2
    (s.Clears 1 ∧ s.Frees 1 ∧ s.Renews 1) ∧
      (s.dist.inflight? 1).map (·.lines) = some [40, 3, 41] ∧
      (t.dist.line? 0 40).map (fun p => (p.owner, p.status)) = some (none, { enabled := true }) ∧
      ((t.run [.initVcpu 1, .inject 0 40, .inject 1 41]).dist.inflight? 0).map (·.lines) =
        some [42, 40] ∧
      ((t.run [.initVcpu 1, .inject 0 40, .inject 1 41]).dist.inflight? 1).map (·.lines) =
        some [41] := by
  intro m s t
  have started : Machine.start (.forHardware 2 64) ({ up := [0, 1] } : SteadyHost) = .ok m := rfl
  exact ⟨hands_back_run started _ (by decide +kernel), by decide +kernel, by decide +kernel,
    by decide +kernel, by decide +kernel⟩

end Machine

end VirtualGic
