/-
# Proofs.Bystander — reports from a VCPU that does not hold the line

A shared line is seen by every VCPU, and any of them may report that it entered a list
register, was acknowledged or was completed, also one that held it before or never did.
Such a report is taken to the letter. It is written into the flags of the line as if the
holder had made it (`bystander_marks`), and `not_undisturbed` has a completion by another
VCPU that wipes out that the line is in a list register of its holder.

That is all such a report can do: `Marked` says that lists, owners, snapshots, registers
and all other lines stay, that nothing is called or asked, and that a completion answers
that the line is gone.
-/
import VirtualGic.Proofs.Agreement
import VirtualGic.Proofs.Shape

namespace VirtualGic

set_option autoImplicit false

/-- The operation by which VCPU `v` reports something about `line`, if it can. -/
def Report.operation? (v line : Nat) : Report → Option Operation
  | visible shown => some (.setVisible v line shown)
  | active acknowledged => some (.setActive v line acknowledged)
  | completed => some (.retire v line)
  | _ => none

/-- What a VCPU that does not hold the line is answered. -/
def Report.answer : Report → Answer
  | completed => .truth false
  | _ => .done

/-- Reports about delivery change no flag but `queued`, `visible` and `active`, and
`queued` only when the line enters a list register. -/
theorem Report.status_apply {report : Report} {v line : Nat} {operation : Operation}
    (reports : report.operation? v line = some operation) (p : Descriptor) :
    (report.apply p).status.enabled = p.status.enabled ∧
      (report ≠ .visible true → (report.apply p).status.queued = p.status.queued) := by
  cases report with
  | disabled | routed | unrouted => cases reports
  | visible shown =>
      cases shown with
      | false => exact ⟨rfl, fun _ => rfl⟩
      | true => exact ⟨rfl, fun other => absurd rfl other⟩
  | active | completed => exact ⟨rfl, fun _ => rfl⟩

theorem Report.phys_apply {report : Report} {v line : Nat} {operation : Operation}
    (reports : report.operation? v line = some operation) (p : Descriptor) :
    (report.apply p).phys = p.phys := by
  cases report with
  | disabled | routed | unrouted => cases reports
  | visible | active | completed => rfl

namespace Machine

variable {σ : Type}

/-- From `m` to `m'` a report about the delivery of `ref` is written down, and nothing else
happens. -/
structure Marked (m m' : Machine σ) (ref : LineRef) (report : Report) : Prop where
  /-- Every list is as it was. -/
  lists : ∀ v, m'.dist.inflight? v = m.dist.inflight? v
  /-- All registers are as they were. -/
  ranks : ∀ v index, m'.dist.rank? v index = m.dist.rank? v index
  /-- The distributor is on or off as it was. -/
  control : m'.dist.enabled = m.dist.enabled
  /-- All other lines are as they were. -/
  others : ∀ other, other ≠ ref → m'.dist.descriptor? other = m.dist.descriptor? other
  /-- The line has the flags of the report, and keeps its owner, its snapshot, its physical
  interrupt and whether it is enabled. -/
  line : ∃ p, m.dist.descriptor? ref = some p ∧
    m'.dist.descriptor? ref = some (report.apply p) ∧ (report.apply p).owner = p.owner ∧
      (report.apply p).priority = p.priority ∧ (report.apply p).phys = p.phys ∧
        (report.apply p).status.enabled = p.status.enabled ∧
          (report ≠ .visible true → (report.apply p).status.queued = p.status.queued)
  /-- Nothing is called or noted. -/
  silent : m'.trace = m.trace
  /-- The collaborators are not asked anything. -/
  host : m'.host = m.host

theorem marked_updateLine (m : Machine σ) {ref : LineRef}
    (there : (m.dist.descriptor? ref).isSome = true) {report : Report} {v line : Nat}
    {operation : Operation} (reports : report.operation? v line = some operation) :
    Marked m (m.modify (·.updateLine ref report.apply)) ref report where
  lists := Distributor.inflight?_updateLine m.dist ref report.apply
  ranks := Distributor.rank?_updateLine m.dist ref report.apply
  control := Distributor.enabled_updateLine m.dist ref report.apply
  others := fun other ne =>
    Distributor.descriptor?_updateLine_ne m.dist (fun same => ne same.symm) report.apply
  line := by
    obtain ⟨p, found⟩ := Option.isSome_iff_exists.1 there
    obtain ⟨enabled, queued⟩ := Report.status_apply reports p
    refine ⟨p, found, ?_, report.apply_owner p, report.apply_priority p,
      Report.phys_apply reports p, enabled, queued⟩
    rw [dist_modify, Distributor.descriptor?_updateLine_self, found]
    rfl
  silent := rfl
  host := rfl

variable [Host σ]

/-- A report is written down as it is, by whoever is not the holder. -/
theorem perform_report {m : Machine σ} {v line : Nat} {ref : LineRef}
    (resolved : m.dist.resolve v line = .ok ref)
    (bystander : (m.dist.descriptor ref).owner ≠ some v) {report : Report}
    {operation : Operation} (reports : report.operation? v line = some operation) :
    m.perform operation = (.ok report.answer, m.modify (·.updateLine ref report.apply)) := by
  cases report with
  | disabled | routed | unrouted => cases reports
  | visible shown =>
      obtain rfl := Option.some.inj reports
      simp only [perform, acknowledge, answer, setVisible, updateStatus, resolved]
      rfl
  | active acknowledged =>
      obtain rfl := Option.some.inj reports
      simp only [perform, acknowledge, answer, setActive, updateStatus, resolved]
      rfl
  | completed =>
      obtain rfl := Option.some.inj reports
      simp only [perform, answer, retire_of_resolve resolved, if_pos bystander]
      rfl

/-- What a VCPU reports about a shared line that is inflight on another one is accepted,
and changes the flags of the line and nothing else. -/
theorem bystander_marks {config : Config} {host : σ} {m : Machine σ}
    (started : Machine.start config host = .ok m) (operations : List Operation)
    {v holder line : Nat} (shared : linesPerRank ≤ line)
    (held : (m.run operations).dist.onList holder line = true)
    (present : ((m.run operations).dist.vcpu? v).isSome = true) (bystander : v ≠ holder)
    {report : Report} {operation : Operation}
    (reports : report.operation? v line = some operation) :
    ((m.run operations).perform operation).1 = .ok report.answer ∧
      Marked (m.run operations) ((m.run operations).perform operation).2
        (.shared (line - linesPerRank)) report := by
  have consistent := consistent_run started operations
  have number : (LineRef.shared (line - linesPerRank)).number = line := by
    simp only [LineRef.number]
    omega
  obtain ⟨found, owner⟩ :=
    @Consistent.owner_of_onList _ consistent holder (.shared (line - linesPerRank))
      (number.symm ▸ held) trivial
  have there := Option.isSome_iff_exists.2 ⟨_, found⟩
  have resolved : (m.run operations).dist.resolve v line = .ok (.shared (line - linesPerRank)) :=
    Distributor.resolve_eq_ok_iff.2
      ⟨present, Distributor.lineRef?_eq_some_iff.2 ⟨number, trivial, there⟩⟩
  have other : ((m.run operations).dist.descriptor (.shared (line - linesPerRank))).owner ≠
      some v := by
    rw [owner]
    exact fun same => bystander (Option.some.inj same).symm
  rw [perform_report resolved other reports]
  exact ⟨rfl, marked_updateLine _ there reports⟩

/-- Line 40 is in a list register of VCPU 1 when VCPU 0 completes it. -/
theorem bystander_marks_completed :
    let m : Machine SteadyHost := .fresh (.forHardware 2 64) { up := [0, 1] }
    let s := m.run [.initVcpu 0, .initVcpu 1, .enableLines 1 256 1, .inject 1 40,
      .setVisible 1 40 true]
    s.dist.onList 1 40 = true ∧ (s.perform (.retire 0 40)).1 = .ok (.truth false) ∧
      Marked s (s.perform (.retire 0 40)).2 (.shared 8) .completed := by
  intro m s
  have started : Machine.start (.forHardware 2 64) ({ up := [0, 1] } : SteadyHost) = .ok m := rfl
  have held : s.dist.onList 1 40 = true := by decide +kernel
  have present : (s.dist.vcpu? 0).isSome = true := by decide +kernel
  have reports : Report.completed.operation? 0 40 = some (.retire 0 40) := rfl
  exact ⟨held, bystander_marks started _ (by decide) held present (by decide) reports⟩

/-- A completion by VCPU 0 changes the flags of a line that is inflight on VCPU 1. -/
theorem not_undisturbed :
    let m : Machine SteadyHost := .fresh (.forHardware 2 64) { up := [0, 1] }
    let s := m.run [.initVcpu 0, .initVcpu 1, .enableLines 1 256 1, .inject 1 40,
      .setVisible 1 40 true]
    Machine.start (.forHardware 2 64) { up := [0, 1] } = .ok m ∧
      s.dist.onList 1 40 = true ∧ (s.dist.vcpu? 0).isSome = true ∧
      (s.dist.descriptor (.shared 8)).status = { enabled := true, visible := true } ∧
      ((s.perform (.retire 0 40)).2.dist.descriptor (.shared 8)).status = { enabled := true } := by
  intro m s
  exact ⟨rfl, by decide +kernel, by decide +kernel, by decide +kernel, by decide +kernel⟩

end Machine

end VirtualGic
