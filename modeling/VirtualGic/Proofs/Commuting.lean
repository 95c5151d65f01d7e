/-
# Proofs.Commuting — lines raised in either order

Two lines that are raised one after the other can meet in one place only, the list that both
join. There an insertion finds its position by priorities: entries of two priorities end up in
the same places whichever comes first (`Entry.insertInto_comm`), and entries of one priority
become neighbours, the first comer in front (`Entry.insertInto_swap`).

So the order shows in nothing but such a pair of neighbours (`Distributor.Swapped`), and
`inject_comm_run` says so after every history. Which VCPU a line is raised on does not matter
once it is inflight, and lines of one number that two VCPUs have each for its own are two.
-/
import VirtualGic.Proofs.Firm

namespace VirtualGic

set_option autoImplicit false

/-! ## Two insertions -/

namespace Entry

variable {x y : Entry}

theorem insertInto_comm_of_lt (less : x.priority < y.priority) (entries : List Entry) :
    x.insertInto (y.insertInto entries) = y.insertInto (x.insertInto entries) := by
  have behind : ¬ y.priority < x.priority := Nat.lt_asymm less
  induction entries with
  | nil => simp only [insertInto, if_pos less, if_neg behind]
  | cons head rest ih =>
      by_cases late : y.priority < head.priority
      · have early : x.priority < head.priority := Nat.lt_trans less late
        simp only [insertInto, if_pos late, if_pos early, if_pos less, if_neg behind]
      · by_cases early : x.priority < head.priority
        · simp only [insertInto, if_neg late, if_pos early, if_neg behind]
        · simp only [insertInto, if_neg late, if_neg early, ih]

theorem insertInto_comm (ne : x.priority ≠ y.priority) (entries : List Entry) :
    x.insertInto (y.insertInto entries) = y.insertInto (x.insertInto entries) := by
  by_cases less : x.priority < y.priority
  · exact insertInto_comm_of_lt less entries
  · have more : y.priority < x.priority := by bv_omega
    exact (insertInto_comm_of_lt more entries).symm

/-- Entries of one priority are inserted next to each other, in the order they come. -/
theorem insertInto_swap (same : x.priority = y.priority) (entries : List Entry) :
    ∃ before after, entries = before ++ after ∧
      y.insertInto (x.insertInto entries) = before ++ x :: y :: after ∧
        x.insertInto (y.insertInto entries) = before ++ y :: x :: after := by
  have behind : ¬ y.priority < x.priority := same ▸ Nat.lt_irrefl _
  have behind' : ¬ x.priority < y.priority := same ▸ Nat.lt_irrefl _
  induction entries with
  | nil => exact ⟨[], [], rfl, by simp only [insertInto, if_neg behind, List.nil_append],
      by simp only [insertInto, if_neg behind', List.nil_append]⟩
  | cons head rest ih =>
      by_cases here : x.priority < head.priority
      · have here' : y.priority < head.priority := same ▸ here
        exact ⟨[], head :: rest, rfl,
          by simp only [insertInto, if_pos here, if_pos here', if_neg behind, List.nil_append],
          by simp only [insertInto, if_pos here, if_pos here', if_neg behind', List.nil_append]⟩
      · have later : ¬ y.priority < head.priority := same ▸ here
        obtain ⟨before, after, rfl, one, other⟩ := ih
        exact ⟨head :: before, after, rfl,
          by simp only [insertInto, if_neg here, if_neg later, one, List.cons_append],
          by simp only [insertInto, if_neg here, if_neg later, other, List.cons_append]⟩

end Entry

namespace Distributor

/-- `d` and `d'` are one distributor but for two neighbours on the list of VCPU `v`. -/
structure Swapped (v : Nat) (x y : Entry) (d d' : Distributor) : Prop where
  registers : d'.registers = d.registers
  descriptors : ∀ ref, d'.descriptor? ref = d.descriptor? ref
  lists : ∀ w, w ≠ v → d'.inflight? w = d.inflight? w
  neighbours : ∃ capacity before after,
    d.inflight? v = some ⟨capacity, before ++ x :: y :: after⟩ ∧
      d'.inflight? v = some ⟨capacity, before ++ y :: x :: after⟩

variable {d : Distributor} {v w : Nat} {up up' : Bool} {first second : LineRef}

/-! ## Two lines raised -/

theorem descriptor?_raised_comm (ne : first ≠ second) (ref : LineRef) :
    ((d.raised v up first).raised w up' second).descriptor? ref =
      ((d.raised w up' second).raised v up first).descriptor? ref := by
  simp only [descriptor?_raised, priorityOf_raised]
  by_cases one : first = ref
  · have other : second ≠ ref := fun same => ne (one.trans same.symm)
    simp only [if_pos one, if_neg other]
  · simp only [if_neg one]

/-- What two raised lines do to a list. -/
theorem inflight?_raised_raised (ne : first ≠ second) (u : Nat) :
    ((d.raised v up first).raised w up' second).inflight? u =
      (d.inflight? u).map fun list =>
        let queued := if v = u ∧ d.joins up first = true then
            list.insert first.number (d.priorityOf v first.number)
          else list
        if w = u ∧ d.joins up' second = true then
          queued.insert second.number (d.priorityOf w second.number)
        else queued := by
  rw [inflight?_raised, inflight?_raised, joins_raised_ne ne, priorityOf_raised]
  cases d.inflight? u <;> split <;> split <;> rfl

/-- Both lines join the list of VCPU `v` = `w` at one priority. -/
def Ties (d : Distributor) (v : Nat) (up : Bool) (first : LineRef) (w : Nat) (up' : Bool)
    (second : LineRef) : Prop :=
  v = w ∧ d.joins up first = true ∧ d.joins up' second = true ∧
    d.priorityOf v first.number = d.priorityOf w second.number

theorem raised_comm (ne : first ≠ second) (untied : ¬ d.Ties v up first w up' second) :
    (d.raised v up first).raised w up' second = (d.raised w up' second).raised v up first := by
  apply ext_of_delivery
  · simp only [registers_raised]
  · exact descriptor?_raised_comm ne
  · intro u
    rw [inflight?_raised_raised ne, inflight?_raised_raised ne.symm]
    refine congrArg (Option.map · _) (funext fun list => ?_)
    by_cases one : v = u ∧ d.joins up first = true
    · by_cases other : w = u ∧ d.joins up' second = true
      · have priorities : d.priorityOf v first.number ≠ d.priorityOf w second.number :=
          fun same => untied ⟨one.1.trans other.1.symm, one.2, other.2, same⟩
        simp only [if_pos one, if_pos other, Inflight.insert]
        rw [Entry.insertInto_comm priorities.symm]
      · simp only [if_neg other]
    · simp only [if_neg one]

theorem swapped_of_ties (ne : first ≠ second) (present : (d.vcpu? v).isSome = true)
    (tied : d.Ties v up first w up' second) :
    Swapped v ⟨first.number, d.priorityOf v first.number⟩
      ⟨second.number, d.priorityOf v second.number⟩
      ((d.raised v up first).raised w up' second) ((d.raised w up' second).raised v up first) := by
  obtain ⟨rfl, joins, joins', same⟩ := tied
  refine ⟨by simp only [registers_raised], fun ref => (descriptor?_raised_comm ne ref).symm,
    fun u other => ?_, ?_⟩
  · rw [inflight?_raised_raised ne, inflight?_raised_raised ne.symm]
    simp only [if_neg fun both : v = u ∧ _ => other both.1.symm]
  · obtain ⟨list, held⟩ := Option.isSome_iff_exists.1 ((d.inflight?_isSome v).trans present)
    have tied : (⟨first.number, d.priorityOf v first.number⟩ : Entry).priority =
        (⟨second.number, d.priorityOf v second.number⟩ : Entry).priority := same
    obtain ⟨before, after, -, one, other⟩ := Entry.insertInto_swap tied list.entries
    refine ⟨list.capacity, before, after, ?_, ?_⟩
    · rw [inflight?_raised_raised ne, held, Option.map_some]
      simp only [joins, joins', and_self, if_true, Inflight.insert, one]
    · rw [inflight?_raised_raised ne.symm, held, Option.map_some]
      simp only [joins, joins', and_self, if_true, Inflight.insert, other]

/-- Whether `line` is queued when it is raised on VCPU `v`. -/
def Enqueues (d : Distributor) (up : Nat → Bool) (v line : Nat) : Prop :=
  ∃ ref, d.resolve v line = .ok ref ∧ d.joins (up v) ref = true

end Distributor

namespace Machine

variable {σ : Type} [Host σ]

/-- Line `a` is raised on VCPU `v` and line `b` on VCPU `w`, in either order. -/
structure Commutes (s : Machine σ) (up : Nat → Bool) (v a w b : Nat) : Prop where
  /-- The order makes no difference, unless both lines are queued on one VCPU at one
  priority. -/
  same : ¬ (v = w ∧ s.dist.Enqueues up v a ∧ s.dist.Enqueues up w b ∧
      s.dist.priorityOf v a = s.dist.priorityOf w b) →
    ((s.inject w b).2.inject v a).2.dist = ((s.inject v a).2.inject w b).2.dist
  /-- If they are, they are neighbours and the first comer is in front. -/
  swapped : v = w → s.dist.Enqueues up v a → s.dist.Enqueues up w b →
    s.dist.priorityOf v a = s.dist.priorityOf w b →
    Distributor.Swapped v ⟨a, s.dist.priorityOf v a⟩ ⟨b, s.dist.priorityOf w b⟩
      ((s.inject v a).2.inject w b).2.dist ((s.inject w b).2.inject v a).2.dist

variable {up : Nat → Bool} {S : σ → Prop} {s : Machine σ} {v w a b : Nat}

theorem resolve_inject_eq_ok_iff (consistent : Consistent s.dist) {ref : LineRef} :
    (s.inject w b).2.dist.resolve v a = .ok ref ↔ s.dist.resolve v a = .ok ref := by
  by_cases found : ∃ target, s.dist.resolve w b = .ok target
  · obtain ⟨target, found⟩ := found
    rw [dist_inject consistent found, Distributor.resolve_raised_eq_ok_iff]
  · rw [inject_of_refused fun target known => found ⟨target, known⟩]

/-- A line that there is not makes no difference, wherever its turn is. -/
theorem inject_comm_of_refused (consistent : Consistent s.dist)
    (refused : ∀ ref, s.dist.resolve v a ≠ .ok ref) :
    ((s.inject w b).2.inject v a).2 = ((s.inject v a).2.inject w b).2 := by
  rw [inject_of_refused refused, inject_of_refused]
  intro ref found
  exact refused ref ((resolve_inject_eq_ok_iff consistent).1 found)

theorem dist_inject_inject (firm : Host.Firm up S) (inside : S s.host)
    (consistent : Consistent s.dist) {first second : LineRef}
    (found : s.dist.resolve v a = .ok first) (found' : s.dist.resolve w b = .ok second) :
    ((s.inject v a).2.inject w b).2.dist =
      (s.dist.raised v (up v) first).raised w (up w) second := by
  have one : (s.inject v a).2.dist = s.dist.raised v (up v) first := by
    rw [dist_inject consistent found, show (s.online v).1 = up v from (firm.online v inside).1]
  have still : Consistent (s.inject v a).2.dist := consistent.perform (.inject v a)
  have answer : ((s.inject v a).2.online w).1 = up w :=
    (firm.online w (firm_inject firm inside v a)).1
  rw [dist_inject still ((resolve_inject_eq_ok_iff consistent).2 found'), answer, one]

theorem commutes_of_resolve (firm : Host.Firm up S) (inside : S s.host)
    (consistent : Consistent s.dist) {first second : LineRef} (ne : first ≠ second)
    (found : s.dist.resolve v a = .ok first) (found' : s.dist.resolve w b = .ok second) :
    s.Commutes up v a w b := by
  have enqueues : ∀ {u line ref}, s.dist.resolve u line = .ok ref →
      (s.dist.Enqueues up u line ↔ s.dist.joins (up u) ref = true) := by
    intro u line ref known
    refine ⟨fun ⟨target, known', joins⟩ => ?_, fun joins => ⟨ref, known, joins⟩⟩
    obtain rfl := Except.ok.inj (known'.symm.trans known)
    exact joins
  obtain ⟨present, rfl, -, -⟩ := Distributor.found_of_resolve found
  obtain ⟨-, rfl, -, -⟩ := Distributor.found_of_resolve found'
  constructor
  · intro untied
    rw [dist_inject_inject firm inside consistent found found',
      dist_inject_inject firm inside consistent found' found]
    refine (Distributor.raised_comm ne fun tied => untied ?_).symm
    exact ⟨tied.1, (enqueues found).2 tied.2.1, (enqueues found').2 tied.2.2.1, tied.2.2.2⟩
  · rintro rfl joins joins' priorities
    rw [dist_inject_inject firm inside consistent found found',
      dist_inject_inject firm inside consistent found' found]
    exact Distributor.swapped_of_ties ne present
      ⟨rfl, (enqueues found).1 joins, (enqueues found').1 joins', priorities⟩

theorem commutes_of_consistent (firm : Host.Firm up S) (inside : S s.host)
    (consistent : Consistent s.dist)
    (apart : s.dist.resolve v a ≠ s.dist.resolve w b) : s.Commutes up v a w b := by
  by_cases one : ∃ ref, s.dist.resolve v a = .ok ref
  · by_cases other : ∃ ref, s.dist.resolve w b = .ok ref
    · obtain ⟨first, found⟩ := one
      obtain ⟨second, found'⟩ := other
      refine commutes_of_resolve firm inside consistent ?_ found found'
      rintro rfl
      exact apart (found.trans found'.symm)
    · refine ⟨fun _ => ?_, fun _ _ ⟨ref, found, _⟩ => absurd ⟨ref, found⟩ other⟩
      rw [inject_comm_of_refused consistent fun ref found => other ⟨ref, found⟩]
  · refine ⟨fun _ => ?_, fun _ ⟨ref, found, _⟩ => absurd ⟨ref, found⟩ one⟩
    rw [inject_comm_of_refused consistent fun ref found => one ⟨ref, found⟩]

/-- After every history, it does not matter in which order two lines are raised, but for the
order of two lines that one VCPU queues at one priority. -/
theorem inject_comm_run {config : Config} {host : σ} {m : Machine σ}
    (started : Machine.start config host = .ok m) (operations : List Operation)
    (firm : Host.Firm up S) (inside : S (m.run operations).host)
    (apart : (m.run operations).dist.resolve v a ≠ (m.run operations).dist.resolve w b) :
    (m.run operations).Commutes up v a w b :=
  commutes_of_consistent firm inside (consistent_run started operations) apart

/-- Lines 40 and 42 are queued on VCPU 0 at one priority, line 41 at a smaller one, and line
3 is one line on each of the VCPUs. -/
theorem inject_comm_run_one_list :
    let m : Machine SteadyHost := .fresh (.forHardware 2 64) { up := [0, 1] }
    let s := m.run [.initVcpu 0, .initVcpu 1, .write 0 0x428 .word 0xa000a0, .inject 1 43]
    s.Commutes [0, 1].contains 0 40 0 42 ∧ s.Commutes [0, 1].contains 0 40 0 41 ∧
      s.Commutes [0, 1].contains 0 3 1 3 ∧
      (((s.inject 0 40).2.inject 0 42).2.dist.inflight? 0).map (·.lines) = some [40, 42] ∧
      (((s.inject 0 42).2.inject 0 40).2.dist.inflight? 0).map (·.lines) = some [42, 40] ∧
      ((s.inject 0 40).2.inject 0 41).2.dist = ((s.inject 0 41).2.inject 0 40).2.dist := by
  intro m s
  have started : Machine.start (.forHardware 2 64) ({ up := [0, 1] } : SteadyHost) = .ok m := rfl
  have firm := (SteadyHost.constant { up := [0, 1] }).toFirm
  have unmoved : s.host = { up := [0, 1] } := by decide +kernel
  exact ⟨inject_comm_run started _ firm unmoved (by decide +kernel),
    inject_comm_run started _ firm unmoved (by decide +kernel),
    inject_comm_run started _ firm unmoved (by decide +kernel),
    by decide +kernel, by decide +kernel, by decide +kernel⟩

end Machine

end VirtualGic
