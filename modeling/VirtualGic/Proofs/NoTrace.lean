/-
# Proofs.NoTrace — the life of one line leaves no trace on the others

A line is raised on a VCPU, put into a list register, acknowledged and completed. Two runs
are compared, from one state: the second carries out these four operations in between, at
any points, and all others as the first one does (`Moment`). As long as the others are not
about the line, they answer the same in both runs and call the same on the physical
controller, and both runs end in one state but for the snapshot of the line
(`life_leaves_no_trace`).

The physical interface has to be honest before, or a line that is not inflight could have
flags that its completion wipes out: `settled_run` says that there is none. From then on
the line goes through the stages of `Due`, and between any two operations the second
machine without the line is the first one.
-/
import VirtualGic.Proofs.Beside

namespace VirtualGic

set_option autoImplicit false

/-! ## Lines that are not inflight -/

/-- A line that is on no list has no delivery state. -/
def Distributor.Settled (d : Distributor) : Prop :=
  ∀ ref p, d.descriptor? ref = some p → p.owner = none → p.status.settled = p.status

/-- What enters a list register or is acknowledged is inflight. -/
def Act.Truthful (d : Distributor) : Act → Prop
  | touch ref (.visible true) | touch ref (.active true) => (d.descriptor ref).owner ≠ none
  | _ => True

theorem Report.settled_apply {report : Report} {p : Descriptor}
    (calm : report ≠ .visible true ∧ report ≠ .active true)
    (settled : p.status.settled = p.status) :
    (report.apply p).status.settled = (report.apply p).status := by
  have parts : p.status.queued = false ∧ p.status.visible = false ∧ p.status.active = false := by
    rw [← settled]
    exact ⟨rfl, rfl, rfl⟩
  cases report with
  | visible shown =>
      cases shown with
      | false => simp [apply, Descriptor.setVisible, Status.settled, parts]
      | true => exact absurd rfl calm.1
  | active acknowledged =>
      cases acknowledged with
      | false => simp [apply, Descriptor.setActive, Status.settled, parts]
      | true => exact absurd rfl calm.2
  | routed | unrouted => exact settled
  | disabled | completed =>
      simp [apply, Descriptor.setEnabled, Descriptor.complete, Status.settled, parts]

namespace Distributor

/-- A line stays settled if the change settles it, or finds it inflight and leaves it so. -/
theorem Settled.change {d d' : Distributor} (before : d.Settled) {ref : LineRef}
    {f : Descriptor → Descriptor}
    (descriptors : ∀ other, d'.descriptor? other =
      if ref = other then (d.descriptor? other).map f else d.descriptor? other)
    (settles : ∀ p, d.descriptor? ref = some p → (f p).owner = none →
      (p.owner = none → p.status.settled = p.status) → (f p).status.settled = (f p).status) :
    d'.Settled := by
  intro other p' found idle
  rw [descriptors] at found
  split at found
  · rename_i same
    subst same
    obtain ⟨p, there, rfl⟩ := Option.map_eq_some_iff.1 found
    exact settles p there idle (before ref p there)
  · exact before other p' found idle

theorem Settled.setVcpu {d : Distributor} (before : d.Settled) {v : Nat} {state : Option Vcpu}
    (idle : ∀ vcpu, state = some vcpu → ∀ line : Fin 32, vcpu.lines.get line = .idle line) :
    (d.setVcpu v state).Settled := by
  intro ref p found free
  cases ref with
  | shared index => exact before (.shared index) p found free
  | banked w line =>
      rw [descriptor?_setVcpu_banked] at found
      split at found
      · obtain ⟨vcpu, made, rfl⟩ := Option.map_eq_some_iff.1 found
        rw [idle vcpu made]
        rfl
      · exact before (.banked w line) p found free

theorem Settled.apply {d : Distributor} {a : Act} (before : d.Settled) (allowed : a.Allowed d)
    (truthful : a.Truthful d) : (a.apply d).Settled := by
  have changed := fun {ref f} (change : a.change? = some (ref, f)) =>
    before.change (Act.descriptor?_apply_of_change? (d := d) change)
  cases a with
  | ask | note | call => exact before
  | control | store =>
      intro ref p found
      rw [Act.Registers.descriptor?_apply (by trivial)] at found
      exact before ref p found
  | touch ref report =>
      refine changed rfl fun p found free settled => ?_
      rw [Report.apply_owner] at free
      refine Report.settled_apply ⟨?_, ?_⟩ (settled free)
      · rintro rfl
        exact truthful (by rw [descriptor_of_eq_some found, free])
      · rintro rfl
        exact truthful (by rw [descriptor_of_eq_some found, free])
  | enable ref =>
      refine changed rfl fun p _ free settled => ?_
      have parts := settled free
      simp only [Status.settled, Descriptor.setEnabled] at parts ⊢
      rw [← parts]
  | retrigger holder ref =>
      refine changed rfl fun p found free _ => ?_
      rw [Act.Allowed, descriptor_of_eq_some found, show p.owner = none from free] at allowed
      cases allowed
  | keep holder ref =>
      refine changed rfl fun p found free _ => ?_
      rw [Act.Allowed, descriptor_of_eq_some found, show p.owner = none from free] at allowed
      cases allowed.1
  | link v ref priority =>
      refine changed rfl fun p _ free _ => ?_
      cases free
  | unlink holder ref =>
      refine changed rfl fun p _ _ _ => ?_
      rw [Descriptor.handBack_status]
      rfl
  | clear v =>
      rw [Act.apply]
      cases held : d.inflight? v with
      | none =>
          rw [dropInflight_of_none held]
          exact before
      | some list =>
          intro ref p found free
          rw [descriptor?_dropInflight held] at found
          split at found
          · obtain ⟨p, -, rfl⟩ := Option.map_eq_some_iff.1 found
            rw [Descriptor.handBack_status]
            rfl
          · exact before ref p found free
  | allocate v vcpu =>
      obtain ⟨-, -, capacity, -, created⟩ := allowed
      refine before.setVcpu ?_
      rintro _ ⟨⟩
      exact (Vcpu.idle_of_create created).2.1
  | release v => exact before.setVcpu (by rintro vcpu ⟨⟩)

end Distributor

/-! ## An honest physical interface -/

/-- Whether an operation reports that a line entered a list register of a VCPU, or was
acknowledged there, which is not on the list of that VCPU. -/
def Operation.Misreports (d : Distributor) : Operation → Prop
  | .setVisible v line true | .setActive v line true => d.onList v line = false
  | _ => False

namespace Machine

variable {σ : Type} [Host σ]

/-- No operation of a history misreports. -/
def Honest : Machine σ → List Operation → Prop
  | _, [] => True
  | m, operation :: rest => ¬ operation.Misreports m.dist ∧ Honest (m.perform operation).2 rest

/-- Every list is sorted after a history. -/
theorem sorted_run {config : Config} {host : σ} {m : Machine σ}
    (started : Machine.start config host = .ok m) (operations : List Operation) :
    (m.run operations).dist.Sorted := by
  obtain ⟨-, rfl⟩ := start_eq_ok_iff.1 started
  refine run_kept (P := fun s => s.dist.Sorted)
    (fun step before => step.dist ▸ before.apply step.allowed) ?_ operations
  intro v list found
  have absent : (fresh config host).dist.inflight? v = none := by
    simp [fresh, Distributor.inflight?, Distributor.vcpu?_create]
  rw [absent] at found
  cases found

omit [Host σ] in
theorem settled_updateStatus {m : Machine σ} (settled : m.dist.Settled) (report : Report)
    {v line : Nat}
    (truthful : ∀ ref, m.dist.resolve v line = .ok ref → (Act.touch ref report).Truthful m.dist) :
    (m.updateStatus report.apply v line).2.dist.Settled := by
  rcases updateStatus_cases m report v line with
      same | ⟨ref, resolved, step⟩
  · rw [same]
    exact settled
  · rw [step.dist]
    exact settled.apply step.allowed (truthful ref resolved)

theorem settled_perform {m : Machine σ} (settled : m.dist.Settled) (consistent : Consistent m.dist)
    {operation : Operation} (honest : ¬ operation.Misreports m.dist) :
    (m.perform operation).2.dist.Settled := by
  -- The line of a report is on a list, so its descriptor has an owner.
  have inflight : ∀ {v line ref}, m.dist.resolve v line = .ok ref →
      ¬ m.dist.onList v line = false → (m.dist.descriptor ref).owner ≠ none := by
    intro v line ref resolved listed free
    obtain ⟨-, rfl, seen, -⟩ := Distributor.found_of_resolve resolved
    rw [Bool.not_eq_false] at listed
    have owner := (consistent.owner_of_onList listed seen).2
    rw [free] at owner
    cases owner
  by_cases reports : (∃ v line, operation = .setVisible v line true) ∨
      ∃ v line, operation = .setActive v line true
  · rcases reports with ⟨v, line, rfl⟩ | ⟨v, line, rfl⟩
    · exact settled_updateStatus settled (.visible true) fun _ found => inflight found honest
    · exact settled_updateStatus settled (.active true) fun _ found => inflight found honest
  · refine (m.perform_steps operation).kept (P := fun s => s.dist.Settled) ?_ settled
    intro s a s' takes step before
    have truthful : a.Truthful s.dist := by
      cases a with
      | touch ref report =>
          by_cases raises : report = .visible true ∨ report = .active true
          · rcases Operation.reports_of_takes raises takes with
              ⟨v, line, same, -⟩ | ⟨v, line, same, -⟩
            · exact absurd (.inl ⟨v, line, same⟩) reports
            · exact absurd (.inr ⟨v, line, same⟩) reports
          · cases report with
            | visible shown =>
                cases shown with
                | false => trivial
                | true => exact absurd (.inl rfl) raises
            | active acknowledged =>
                cases acknowledged with
                | false => trivial
                | true => exact absurd (.inr rfl) raises
            | _ => trivial
      | _ => trivial
    rw [step.dist]
    exact before.apply step.allowed truthful

theorem settled_history {m : Machine σ} (settled : m.dist.Settled) (consistent : Consistent m.dist)
    {operations : List Operation} (honest : m.Honest operations) :
    (m.run operations).dist.Settled := by
  induction operations generalizing m with
  | nil => exact settled
  | cons operation rest ih =>
      exact ih (settled_perform settled consistent honest.1) (consistent.perform operation)
        honest.2

/-- A line that is not inflight has no delivery state, if all reports are honest. -/
theorem settled_run {config : Config} {host : σ} {m : Machine σ}
    (started : Machine.start config host = .ok m) {operations : List Operation}
    (honest : m.Honest operations) : (m.run operations).dist.Settled := by
  refine settled_history ?_ (consistent_run started []) honest
  obtain ⟨-, rfl⟩ := start_eq_ok_iff.1 started
  intro ref p found _
  rw [Distributor.eq_idle_of_create found]
  rfl

end Machine

/-! ## The stages of a delivery -/

/-- The life of `line` on `v`: it is raised, enters a list register, is acknowledged and is
completed. -/
def Operation.life (v line : Nat) : List Operation :=
  [.inject v line, .setVisible v line true, .setActive v line true, .retire v line]

/-- What is still due of the life of `line` on `v`, with the descriptor as it is. -/
inductive Due (v line : Nat) (p : Descriptor) : List Operation → Prop where
  | inject (free : p.owner = none) (settled : p.status.settled = p.status) :
      Due v line p [.inject v line, .setVisible v line true, .setActive v line true,
        .retire v line]
  | enter (held : p.owner = some v) :
      Due v line p [.setVisible v line true, .setActive v line true, .retire v line]
  | acknowledge (held : p.owner = some v) (taken : p.status.queued = false) :
      Due v line p [.setActive v line true, .retire v line]
  | complete (held : p.owner = some v) (taken : p.status.queued = false) :
      Due v line p [.retire v line]
  | done (free : p.owner = none) (settled : p.status.settled = p.status) : Due v line p []

namespace Apart

variable {v : Nat} {ref : LineRef} {p : Descriptor} {d : Distributor} {q : Byte}

/-- The line stays apart when its own descriptor changes. -/
theorem change (apart : Apart v ref p d) {a : Act} {f : Descriptor → Descriptor}
    (change : a.change? = some (ref, f)) (allowed : a.Allowed d)
    (holder : (f p).owner = none ∨ (f p).owner = some v) : Apart v ref (f p) (a.apply d) where
  consistent := apart.consistent.apply allowed
  sorted := apart.sorted.apply allowed
  present := by
    have present := apart.present
    rw [← Distributor.inflight?_isSome] at present ⊢
    rw [Act.inflight?_isSome_apply v (by cases a <;> trivial)]
    exact present
  seen := apart.seen
  found := by
    rw [Act.descriptor?_apply_of_change? change, if_pos rfl, apart.found]
    rfl
  holder := holder

theorem resolve (apart : Apart v ref p d) : d.resolve v ref.number = .ok ref :=
  Distributor.resolve_eq_ok_iff.2 ⟨apart.present,
    Distributor.lineRef?_eq_some_iff.2 ⟨rfl, apart.seen, by rw [apart.found]; rfl⟩⟩

theorem descriptor (apart : Apart v ref p d) : d.descriptor ref = p :=
  Distributor.descriptor_of_eq_some apart.found

theorem report (apart : Apart v ref p d) (report : Report) :
    Apart v ref (report.apply p) (d.updateLine ref report.apply) :=
  apart.change (a := .touch ref report) rfl (by rw [Act.Allowed, apart.found]; rfl)
    (by rw [report.apply_owner]; exact apart.holder)

end Apart

namespace Machine

variable {σ : Type} [Host σ] {v : Nat} {ref : LineRef} {p : Descriptor} {q : Byte}

omit [Host σ] in
/-- A report about the line is taken, and does not show without the line. -/
theorem report_due {m : Machine σ} (apart : Apart v ref p m.dist) (report : Report)
    (hidden : ∀ p : Descriptor, (report.apply p).atRest q = p.atRest q) :
    Apart v ref (report.apply p) (m.updateStatus report.apply v ref.number).2.dist ∧
      (m.updateStatus report.apply v ref.number).2.dist.without v ref q =
        m.dist.without v ref q := by
  unfold updateStatus
  rw [apart.resolve]
  exact ⟨apart.report report, Apart.without_updateLine_self hidden⟩

/-- A line that was not raised again leaves the list of its holder. -/
theorem retire_of_held {m : Machine σ} (apart : Apart v ref p m.dist) (held : p.owner = some v)
    (taken : p.status.queued = false) :
    m.retire v ref.number = (.ok false,
      (m.modify (·.updateLine ref Report.completed.apply)).modify (Act.unlink v ref).apply) := by
  rw [retire_of_resolve apart.resolve, apart.descriptor, held, taken,
    if_neg (fun other => other rfl), if_neg (by simp)]
  rfl

/-- The next stage of the life of the line: it is as due, does not show without the line,
and the last one answers that the line is gone. -/
theorem perform_due {m : Machine σ}
    (apart : Apart v ref p m.dist) {operation : Operation} {rest : List Operation}
    (due : Due v ref.number p (operation :: rest))
    (up : operation = .inject v ref.number → (m.online v).1 = true) :
    ∃ p', Apart v ref p' (m.perform operation).2.dist ∧ Due v ref.number p' rest ∧
      (m.perform operation).2.dist.without v ref q = m.dist.without v ref q ∧
        (operation = .retire v ref.number → (m.perform operation).1 = .ok (.truth false)) := by
  cases due with
  | inject free settled =>
      have there : (m.dist.descriptor? ref).isSome = true := by rw [apart.found]; rfl
      have owner : (m.dist.descriptor ref).owner = none := by rw [apart.descriptor, free]
      have outcome : (m.perform (.inject v ref.number)).2 = (m.inject v ref.number).2 := rfl
      rw [outcome, dist_inject_of_free apart.resolve owner (up rfl)]
      exact ⟨_, apart.change rfl ⟨there, apart.seen, apart.present, owner, rfl⟩ (.inr rfl),
        .enter rfl, apart.link_without free _, by rintro ⟨⟩⟩
  | enter held =>
      obtain ⟨entered, same⟩ := report_due (q := q) apart (.visible true) fun _ => rfl
      exact ⟨_, entered, .acknowledge held rfl, same, by rintro ⟨⟩⟩
  | acknowledge held taken =>
      obtain ⟨acknowledged, same⟩ := report_due (q := q) apart (.active true) fun _ => rfl
      exact ⟨_, acknowledged, .complete held taken, same, by rintro ⟨⟩⟩
  | complete held taken =>
      have completed := apart.report .completed
      have held' : (Report.completed.apply p).owner = some v := by rw [Report.apply_owner, held]
      have allowed : (Act.unlink v ref).Allowed (m.dist.updateLine ref Report.completed.apply) := by
        rw [Act.Allowed, completed.descriptor, held']
      have given : ((Report.completed.apply p).handBack v).owner = none := by
        rw [Descriptor.handBack_owner, if_pos held']
      have outcome : m.perform (.retire v ref.number) = answer .truth (m.retire v ref.number) := rfl
      rw [outcome, retire_of_held apart held taken]
      refine ⟨_, completed.change (a := .unlink v ref) rfl allowed (.inl given), .done given ?_, ?_,
        fun _ => rfl⟩
      · rw [Descriptor.handBack_status]
        rfl
      · exact completed.unlink_without.trans (Apart.without_updateLine_self fun _ => rfl)

/-! ## Two runs -/

end Machine

/-- A moment of two runs. The collaborators have a life of their own, so each run goes on
among collaborators as they are then. -/
inductive Moment (σ : Type) where
  /-- Both runs carry out an operation, the first one and the second one among these hosts. -/
  | both (operation : Operation) (alone beside : σ)
  /-- Only the second run carries out an operation. -/
  | extra (operation : Operation) (host : σ)

/-- The operation that only the second run carries out. -/
def Moment.extra? {σ : Type} : Moment σ → Option Operation
  | both .. => none
  | extra operation _ => some operation

namespace Machine

variable {σ α : Type}

/-- The machine among collaborators that have moved on. -/
def among (host : σ) (m : Machine σ) : Machine σ :=
  { m with host }

variable [Host σ]

/-- The first run, without what only the second one does. -/
def alone : List (Moment σ) → Machine σ → Machine σ
  | [], m => m
  | .both operation host _ :: rest, m => alone rest ((m.among host).perform operation).2
  | .extra .. :: rest, m => alone rest m

/-- The second run. -/
def beside : List (Moment σ) → Machine σ → Machine σ
  | [], m => m
  | .both operation _ host :: rest, m | .extra operation host :: rest, m =>
      beside rest ((m.among host).perform operation).2

/-- No operation of the first run acts on the line, or clears or frees VCPU `v`. -/
def Avoids (v : Nat) (ref : LineRef) : List (Moment σ) → Machine σ → Prop
  | [], _ => True
  | .both operation host _ :: rest, m =>
      (¬ operation.Reaches ref (m.among host) ∧ operation ≠ .clearPending v ∧
          operation ≠ .freeVcpu v) ∧
        Avoids v ref rest ((m.among host).perform operation).2
  | .extra .. :: rest, m => Avoids v ref rest m

/-- What can be seen of two runs that start from `a` and `b`. An operation of both answers
the same, unless it looks at the delivery of the line, and makes the same physical calls.
A completion of the line that only the second run has answers that the line is gone. -/
def Alike (v : Nat) (ref : LineRef) : List (Moment σ) → Machine σ → Machine σ → Prop
  | [], _, _ => True
  | .both operation g h :: rest, a, b =>
      (¬ operation.Looks v ref a.dist →
          ((a.among g).perform operation).1 = ((b.among h).perform operation).1) ∧
        (∃ made, ((a.among g).perform operation).2.physical = a.physical ++ made ∧
          ((b.among h).perform operation).2.physical = b.physical ++ made) ∧
        Alike v ref rest ((a.among g).perform operation).2 ((b.among h).perform operation).2
  | .extra operation h :: rest, a, b =>
      (operation = .retire v ref.number →
          ((b.among h).perform operation).1 = .ok (.truth false)) ∧
        Alike v ref rest a ((b.among h).perform operation).2

/-- From a stage of the line's life on, the runs are alike, and the second one without the
line stays the first one until the life is over. -/
theorem alike_of_due {part : σ → α} (aloof : Aloof part) {v : Nat} {ref : LineRef} {q : Byte}
    (moments : List (Moment σ)) {a b : Machine σ} {p : Descriptor} {rest : List Operation}
    (apart : Apart v ref p b.dist) (without : a.dist = b.dist.without v ref q)
    (due : Due v ref.number p rest) (extras : moments.filterMap Moment.extra? = rest)
    (up : ∀ host, .extra (.inject v ref.number) host ∈ moments → (Host.online host v).1 = true)
    (same : ∀ operation g h, .both operation g h ∈ moments → part g = part h)
    (avoids : a.Avoids v ref moments) :
    Alike v ref moments a b ∧ ∃ p', Apart v ref p' (b.beside moments).dist ∧
      Due v ref.number p' [] ∧
        (a.alone moments).dist = (b.beside moments).dist.without v ref q := by
  induction moments generalizing a b p rest with
  | nil =>
      obtain rfl : [] = rest := extras
      exact ⟨trivial, p, apart, due, without⟩
  | cons moment moments ih =>
      have up' := fun host member => up host (List.mem_cons_of_mem moment member)
      have same' := fun operation g h member =>
        same operation g h (List.mem_cons_of_mem moment member)
      cases moment with
      | both operation g h =>
          obtain ⟨⟨outside, clears, frees⟩, avoids⟩ := avoids
          let k : Pairing σ α := ⟨part, aloof, v, ref, p, q, a.physical, b.physical⟩
          have here : k.Beside (a.among g) (b.among h) :=
            ⟨apart, without, same operation g h List.mem_cons_self, [],
              (List.append_nil _).symm, (List.append_nil _).symm⟩
          obtain ⟨answer, after⟩ := here.perform outside clears frees
          obtain ⟨alike, done⟩ := ih after.apart after.dist due extras up' same' avoids
          exact ⟨⟨answer, after.made, alike⟩, done⟩
      | extra operation h =>
          obtain rfl : operation :: moments.filterMap Moment.extra? = rest := extras
          obtain ⟨p', apart', due', hidden, gone⟩ :=
            @perform_due _ _ v ref p q (b.among h) apart operation _ due fun inject =>
              up h (inject ▸ List.mem_cons_self)
          obtain ⟨alike, done⟩ := ih apart' (without.trans hidden.symm) due' rfl up' same' avoids
          exact ⟨⟨gone, alike⟩, done⟩

end Machine

/-! ## The snapshot -/

namespace Distributor

variable {d : Distributor} {ref : LineRef} {f g : Descriptor → Descriptor}

theorem updateLine_updateLine :
    (d.updateLine ref f).updateLine ref g = d.updateLine ref fun p => g (f p) := by
  apply ext_of_delivery
  · simp
  · intro target
    simp only [descriptor?_updateLine]
    split
    · rw [Option.map_map]
      rfl
    · rfl
  · intro u
    simp only [inflight?_updateLine]

theorem updateLine_of_fixed {p : Descriptor} (found : d.descriptor? ref = some p)
    (fixed : f p = p) : d.updateLine ref f = d := by
  apply ext_of_delivery
  · simp
  · intro target
    rw [descriptor?_updateLine]
    split
    · rename_i here
      rw [← here, found, Option.map_some, fixed]
    · rfl
  · exact inflight?_updateLine d ref f

end Distributor

namespace Machine

/-- A line that is not inflight is raised on a VCPU that is online, enters a list register,
is acknowledged and is completed, at any points of a run that is not about it. The run goes
as it would have gone without, and ends in the same state but for the snapshot of the
line. -/
theorem life_leaves_no_trace {σ α : Type} [Host σ] {part : σ → α} (aloof : Aloof part)
    {config : Config} {host : σ} {m : Machine σ}
    (started : Machine.start config host = .ok m) {history : List Operation}
    (honest : m.Honest history) {v line : Nat} {ref : LineRef}
    (resolved : (m.run history).dist.resolve v line = .ok ref)
    (idle : ((m.run history).dist.descriptor ref).isInflight = false)
    {moments : List (Moment σ)}
    (life : moments.filterMap Moment.extra? = Operation.life v line)
    (up : ∀ host, .extra (.inject v line) host ∈ moments → (Host.online host v).1 = true)
    (same : ∀ operation g h, .both operation g h ∈ moments → part g = part h)
    (avoids : (m.run history).Avoids v ref moments) :
    Alike v ref moments (m.run history) (m.run history) ∧
      ∃ snapshot, ((m.run history).beside moments).dist =
        ((m.run history).alone moments).dist.updateLine ref ({ · with priority := snapshot }) := by
  obtain ⟨present, rfl, seen, there⟩ := Distributor.found_of_resolve resolved
  obtain ⟨p, found⟩ := Option.isSome_iff_exists.1 there
  have free : p.owner = none := by
    rw [Distributor.descriptor_of_eq_some found] at idle
    simpa [Descriptor.isInflight] using idle
  have settled := settled_run started honest ref p found free
  have apart : Apart v ref p (m.run history).dist :=
    ⟨consistent_run started history, sorted_run started history, present, seen, found, .inl free⟩
  have without : (m.run history).dist = (m.run history).dist.without v ref p.priority := by
    rw [apart.without_idle free settled, Distributor.updateLine_of_fixed found rfl]
  obtain ⟨alike, p', apart', due, ends⟩ := alike_of_due aloof moments apart without
    (.inject free settled) life up same avoids
  refine ⟨alike, p'.priority, ?_⟩
  cases due with
  | done free' settled' =>
      rw [ends, apart'.without_idle free' settled', Distributor.updateLine_updateLine,
        Distributor.updateLine_of_fixed apart'.found rfl]

/-- Line 5 is raised behind line 6, which is in its list register, and line 7 in front of
both. Line 5 is acknowledged before line 6 is completed, and completed after. -/
theorem life_leaves_no_trace_interleaved :
    let host : SteadyHost := { up := [0] }
    let m : Machine SteadyHost := .fresh (.forGuest 1) host
    let s := m.run [.initVcpu 0, .write 0 0x404 .word 0x10404040, .enableLines 0 0xe0 0,
      .inject 0 6, .setVisible 0 6 true]
    let moments : List (Moment SteadyHost) :=
      [.extra (.inject 0 5) host, .both (.inject 0 7) host host,
        .extra (.setVisible 0 5 true) host, .extra (.setActive 0 5 true) host,
        .both (.retire 0 6) host host, .both (.pendingStatus 0 7) host host,
        .extra (.retire 0 5) host]
    (s.beside (moments.take 4)).dist.inflightLines 0 = .ok [7, 6, 5] ∧
      s.Avoids 0 (.banked 0 5) moments ∧ Alike 0 (.banked 0 5) moments s s ∧
        ∃ snapshot, (s.beside moments).dist =
          (s.alone moments).dist.updateLine (.banked 0 5) ({ · with priority := snapshot }) := by
  intro host m s moments
  have started : Machine.start (.forGuest 1) ({ up := [0] } : SteadyHost) = .ok m := rfl
  have aloof : Aloof (id : SteadyHost → SteadyHost) :=
    ⟨fun _ same => by cases same; exact ⟨rfl, rfl⟩, fun _ same => by cases same; exact ⟨rfl, rfl⟩,
      fun _ _ => rfl, fun _ => rfl, fun _ _ _ => rfl, fun same => same⟩
  have honest : m.Honest [.initVcpu 0, .write 0 0x404 .word 0x10404040, .enableLines 0 0xe0 0,
      .inject 0 6, .setVisible 0 6 true] := by
    simp only [Honest, Operation.Misreports, not_false_eq_true, true_and, and_true]
    decide +kernel
  have resolved : s.dist.resolve 0 5 = .ok (.banked 0 5) := by decide +kernel
  have idle : (s.dist.descriptor (.banked 0 5)).isInflight = false := by decide +kernel
  have same : ∀ operation (g h : SteadyHost), .both operation g h ∈ moments → g = h := by
    intro operation g h member
    simp only [moments, List.mem_cons, Moment.both.injEq, reduceCtorEq, false_or,
      List.not_mem_nil, or_false] at member
    rcases member with ⟨-, left, right⟩ | ⟨-, left, right⟩ | ⟨-, left, right⟩
    all_goals exact left.trans right.symm
  have up : ∀ h : SteadyHost, .extra (.inject 0 5) h ∈ moments → (Host.online h 0).1 = true := by
    intro h member
    simp only [moments, List.mem_cons, Moment.extra.injEq, reduceCtorEq, true_and, false_and,
      or_false, List.not_mem_nil] at member
    rw [member]
    rfl
  have avoids : s.Avoids 0 (.banked 0 5) moments := by
    simp only [moments, Avoids, Operation.Reaches, and_true]
    decide +kernel
  exact ⟨by decide +kernel, avoids,
    life_leaves_no_trace aloof started honest resolved idle rfl up same avoids⟩

end Machine

end VirtualGic
