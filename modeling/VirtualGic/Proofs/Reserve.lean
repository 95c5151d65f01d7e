/-
# Proofs.Reserve — no list outgrows the room reserved for it

The list of a VCPU is made with room for every line there is, and nothing checks later that
there is room left. None has to: a line that is put on a list is on no list yet, and every
line on a list has a descriptor. So the entries of a list are different lines, counted from 0,
and there are no more of them than lines.

`Stocked` is what the count rests on, and every act keeps it. It gives the bound wherever an
operation has got to (`Stocked.roomy`), and one entry more where a line is claimed
(`Stocked.room`). `reserve_run` says both of every operation after every history.
-/
import VirtualGic.Proofs.Agreement
import VirtualGic.Proofs.Faultless

namespace VirtualGic

set_option autoImplicit false

/-! ## Counting lines -/

theorem Config.eq_of_lineCount {config : Config} {lines : Nat}
    (counted : config.lineCount = .ok lines) : lines = linesPerRank + config.spis := by
  unfold lineCount at counted
  split at counted
  · exact (Except.ok.inj counted).symm
  · cases counted

/-- The lines that have descriptors are counted from 0, the private ones first. -/
theorem Distributor.number_lt {d : Distributor} {ref : LineRef}
    (there : (d.descriptor? ref).isSome = true) :
    ref.number < linesPerRank + d.sharedLines.size := by
  cases ref with
  | banked v line => exact Nat.lt_add_right _ line.isLt
  | shared index =>
      have inside : index < d.sharedLines.size := by simpa [descriptor?] using there
      exact Nat.add_lt_add_left inside linesPerRank

/-! ## What the count rests on -/

/-- Lists and owners agree, the settings are those of the start, and every list has the room
that it was made with. -/
structure Stocked (config : Config) (d : Distributor) : Prop where
  consistent : Consistent d
  shape : d.shape = (config, config.sharedRanks, config.spis, config.vcpus)
  /-- The room on a list is that for every line. -/
  reserved : ∀ {v list}, d.inflight? v = some list → list.capacity = linesPerRank + config.spis

/-- Every list has room for what is on it. -/
structure Roomy (lines : Nat) (d : Distributor) : Prop where
  /-- The room on a list is that for every line. -/
  reserved : ∀ {v list}, d.inflight? v = some list → list.capacity = lines
  /-- No list is longer than that. -/
  fits : ∀ {v list}, d.inflight? v = some list → list.length ≤ list.capacity
  /-- An entry is about one of the lines. -/
  named : ∀ {v entry}, d.Lists v entry → entry.line < lines

namespace Stocked

variable {config : Config} {d : Distributor}

/-- An act changes no room: lists come with it and go with it. -/
theorem capacity_apply (stocked : Stocked config d) {a : Act} (allowed : a.Allowed d)
    {v : Nat} {list : Inflight} (found : (a.apply d).inflight? v = some list) :
    list.capacity = linesPerRank + config.spis := by
  -- An act that changes the entries of one list takes the other lists as they are.
  have kept : ∀ {w : Nat} {f : Inflight → Inflight},
      (if w = v then (d.inflight? v).map f else d.inflight? v) = some list →
      (∀ old, (f old).capacity = old.capacity) →
      list.capacity = linesPerRank + config.spis := by
    intro w f found same
    split at found
    · obtain ⟨old, held, rfl⟩ := Option.map_eq_some_iff.1 found
      exact (same old).trans (stocked.reserved held)
    · exact stocked.reserved found
  cases a with
  | link w ref priority =>
      rw [Act.apply, Distributor.inflight?_updateLine_updateInflight] at found
      exact kept found fun _ => rfl
  | unlink w ref =>
      rw [Act.apply, Distributor.inflight?_updateLine_updateInflight] at found
      exact kept found fun _ => rfl
  | clear w =>
      rw [Act.apply, Distributor.inflight?_dropInflight] at found
      exact kept found fun _ => rfl
  | allocate w vcpu =>
      obtain ⟨-, -, lines, counted, created⟩ := allowed
      have settings : d.config = config := congrArg (·.1) stocked.shape
      rw [Act.apply, Distributor.inflight?_setVcpu] at found
      split at found
      · obtain rfl := Option.some.inj found
        rw [← Config.eq_of_lineCount (settings ▸ counted)]
        unfold Vcpu.create at created
        split at created
        · obtain rfl := Except.ok.inj created
          rfl
        · cases created
      · exact stocked.reserved found
  | release w =>
      rw [Act.apply, Distributor.inflight?_setVcpu] at found
      split at found
      · cases found
      · exact stocked.reserved found
  | _ => exact stocked.reserved ((Act.inflight?_apply (by trivial) v).symm.trans found)

theorem apply (stocked : Stocked config d) {a : Act} (allowed : a.Allowed d) :
    Stocked config (a.apply d) where
  consistent := stocked.consistent.apply allowed
  shape := (a.shape_apply d).trans stocked.shape
  reserved := stocked.capacity_apply allowed

theorem create (config : Config) : Stocked config (Distributor.create config) where
  consistent := .create config
  shape := Distributor.shape_create config
  reserved := by
    intro v list found
    simp [Distributor.inflight?, Distributor.vcpu?_create] at found

theorem number_lt (stocked : Stocked config d) {ref : LineRef}
    (there : (d.descriptor? ref).isSome = true) : ref.number < linesPerRank + config.spis := by
  have size : d.sharedLines.size = config.spis := congrArg (·.2.2.1) stocked.shape
  exact size ▸ Distributor.number_lt there

theorem line_lt (stocked : Stocked config d) {v : Nat} {entry : Entry}
    (lists : d.Lists v entry) : entry.line < linesPerRank + config.spis := by
  obtain ⟨ref, p, number, -, found, -, -⟩ := stocked.consistent.listed lists
  exact number ▸ stocked.number_lt (Option.isSome_iff_exists.2 ⟨p, found⟩)

theorem lines_lt (stocked : Stocked config d) {v : Nat} {list : Inflight}
    (found : d.inflight? v = some list) :
    ∀ line ∈ list.lines, line < linesPerRank + config.spis := by
  intro line member
  obtain ⟨entry, inside, rfl⟩ := List.mem_map.1 member
  exact stocked.line_lt ⟨list, found, inside⟩

theorem roomy (stocked : Stocked config d) : Roomy (linesPerRank + config.spis) d where
  reserved := stocked.reserved
  named := stocked.line_lt
  fits := by
    intro v list found
    have count := length_le_of_nodup_of_lt (stocked.consistent.distinct found)
      (stocked.lines_lt found)
    rw [stocked.reserved found]
    rwa [Inflight.lines, List.length_map] at count

/-- A line that can be claimed is not on the list yet, so it is one more of the lines. -/
theorem room (stocked : Stocked config d) {v : Nat} {ref : LineRef} {priority : Byte}
    (allowed : (Act.link v ref priority).Allowed d) :
    ∃ list, d.inflight? v = some list ∧ list.length < list.capacity := by
  obtain ⟨there, seen, present, free, -⟩ := allowed
  rw [← Distributor.inflight?_isSome] at present
  obtain ⟨list, found⟩ := Option.isSome_iff_exists.1 present
  obtain ⟨p, known⟩ := Option.isSome_iff_exists.1 there
  refine ⟨list, found, ?_⟩
  -- A line on the list has the VCPU as its owner, and a line that is claimed has none.
  have fresh : ref.number ∉ list.lines := by
    intro member
    have owner := stocked.consistent.owner_of_mem_lines found member seen known
    rw [Distributor.descriptor_of_eq_some known, owner] at free
    cases free
  have count : (ref.number :: list.lines).length ≤ linesPerRank + config.spis :=
    length_le_of_nodup_of_lt
      (List.nodup_cons.2 ⟨fresh, stocked.consistent.distinct found⟩)
      (List.forall_mem_cons.2 ⟨stocked.number_lt there, stocked.lines_lt found⟩)
  rw [stocked.reserved found]
  rwa [List.length_cons, Inflight.lines, List.length_map] at count

end Stocked

theorem Steps.stocked {σ : Type} {config : Config} {K : Act → Prop} {m m' : Machine σ}
    (steps : Steps K m m') (before : Stocked config m.dist) : Stocked config m'.dist :=
  steps.kept (P := fun s => Stocked config s.dist)
    (fun _ step before => step.dist ▸ before.apply step.allowed) before

/-! ## Every operation of every history -/

namespace Machine

variable {σ : Type} [Host σ]

/-- An operation finds room for every line that it puts on a list, of which there are
`lines`. -/
structure Housed (lines : Nat) (m : Machine σ) (operation : Operation) : Prop where
  /-- The operation is a course of the acts that it may take. -/
  course : Steps (operation.Takes m.dist) m (m.perform operation).2
  /-- On the way lists have room for what is on them. -/
  along : ∀ {s}, Steps (operation.Takes m.dist) m s → Roomy lines s.dist
  /-- Where a line is claimed, there is room for one more on the list it is put on. -/
  room : ∀ {s s' v ref priority}, Steps (operation.Takes m.dist) m s →
    Step s (.link v ref priority) s' →
    ∃ list, s.dist.inflight? v = some list ∧ list.length < list.capacity

theorem stocked_run {config : Config} {host : σ} {m : Machine σ}
    (started : Machine.start config host = .ok m) (operations : List Operation) :
    Stocked config (m.run operations).dist := by
  obtain ⟨-, rfl⟩ := start_eq_ok_iff.1 started
  exact run_kept (P := fun s => Stocked config s.dist)
    (fun step before => step.dist ▸ before.apply step.allowed) (.create config) operations

/-- After every history a list has no more entries than there are lines, which is the room it
was made with, and no operation ever finds it full when it puts a line there. -/
theorem reserve_run {config : Config} {host : σ} {m : Machine σ}
    (started : Machine.start config host = .ok m) (operations : List Operation) :
    config.lineCount = .ok (linesPerRank + config.spis) ∧
      Roomy (linesPerRank + config.spis) (m.run operations).dist ∧
      ∀ operation, (m.run operations).Housed (linesPerRank + config.spis) operation := by
  have stocked := stocked_run started operations
  refine ⟨?_, stocked.roomy, fun operation => ⟨perform_steps _ operation, ?_, ?_⟩⟩
  · obtain ⟨lines, counted⟩ := Config.lineCount_of_validate (start_eq_ok_iff.1 started).1
    exact Config.eq_of_lineCount counted ▸ counted
  · exact fun steps => (steps.stocked stocked).roomy
  · exact fun steps step => (steps.stocked stocked).room step.allowed

/-- The shared lines are raised on VCPU 1 and come to VCPU 0 when VCPU 1 is released. With
its private lines that is every line there is, and raising one again adds no entry. -/
theorem reserve_run_full :
    let m : Machine SteadyHost := .fresh (.forHardware 2 34) { up := [0, 1] }
    let ended := m.run ([.initVcpu 0, .initVcpu 1, .inject 1 32, .inject 1 33, .freeVcpu 1] ++
      (List.range 34).map (.inject 0) ++ [.inject 0 33])
    (ended.dist.inflight? 0).map (fun list => (list.length, list.capacity)) = some (34, 34) ∧
      Roomy 34 ended.dist ∧ ended.Housed 34 (.inject 0 33) := by
  have started : Machine.start (.forHardware 2 34) ({ up := [0, 1] } : SteadyHost) = .ok _ := rfl
  obtain ⟨-, roomy, housed⟩ := reserve_run started
    ([.initVcpu 0, .initVcpu 1, .inject 1 32, .inject 1 33, .freeVcpu 1] ++
      (List.range 34).map (.inject 0) ++ [.inject 0 33])
  exact ⟨by decide +kernel, roomy, housed _⟩

end Machine

end VirtualGic
