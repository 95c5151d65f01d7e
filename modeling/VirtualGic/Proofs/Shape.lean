/-
# Proofs.Shape — what no operation changes

The settings of a distributor, how many shared ranks and shared lines it has and how many
VCPUs it has room for are fixed when it is made. `Distributor.shape` is these four
together: every act leaves it alone (`Act.shape_apply`), so every history does.

The shape is what makes look-ups of registers succeed. Shared lines come with enough
shared ranks and private lines with the rank of their VCPU, so whoever sees a line sees
the registers of the line (`rank?_of_line`).
-/
import VirtualGic.Proofs.EnableBitmap

namespace VirtualGic

set_option autoImplicit false

namespace Distributor

/-- The settings, and how many shared ranks, shared lines and VCPUs there is room for. -/
def shape (d : Distributor) : Config × Nat × Nat × Nat :=
  (d.config, d.sharedRanks.size, d.sharedLines.size, d.vcpus.size)

theorem shape_create (config : Config) :
    (create config).shape = (config, config.sharedRanks, config.spis, config.vcpus) := by
  simp [shape, create]

@[simp] theorem shape_updateVcpu (d : Distributor) (v : Nat) (f : Vcpu → Vcpu) :
    (d.updateVcpu v f).shape = d.shape := by
  simp [shape, updateVcpu]

@[simp] theorem shape_updateRank (d : Distributor) (v index : Nat) (f : Rank → Rank) :
    (d.updateRank v index f).shape = d.shape := by
  cases index with
  | zero => exact shape_updateVcpu d v _
  | succ index => simp [shape, updateRank]

@[simp] theorem shape_updateLine (d : Distributor) (ref : LineRef)
    (f : Descriptor → Descriptor) : (d.updateLine ref f).shape = d.shape := by
  cases ref with
  | banked v line => exact shape_updateVcpu d v _
  | shared index => simp [shape, updateLine]

@[simp] theorem shape_updateInflight (d : Distributor) (v : Nat) (f : Inflight → Inflight) :
    (d.updateInflight v f).shape = d.shape :=
  shape_updateVcpu d v _

@[simp] theorem shape_setVcpu (d : Distributor) (v : Nat) (state : Option Vcpu) :
    (d.setVcpu v state).shape = d.shape := by
  simp [shape, setVcpu]

theorem enabled_updateLine (d : Distributor) (ref : LineRef) (f : Descriptor → Descriptor) :
    (d.updateLine ref f).enabled = d.enabled := by
  cases ref <;> rfl

/-- Emptying a list changes only what changes of descriptors and lists do. -/
theorem dropInflight_kept {α : Type} {reading : Distributor → α}
    (line : ∀ d ref f, reading (d.updateLine ref f) = reading d)
    (list : ∀ d v f, reading (d.updateInflight v f) = reading d) (d : Distributor) (v : Nat) :
    reading (d.dropInflight v) = reading d := by
  unfold dropInflight
  split
  · rfl
  · rename_i held found
    rw [← list d v (·.drain.2)]
    generalize d.updateInflight v (·.drain.2) = emptied
    induction held.drain.1 generalizing emptied with
    | nil => rfl
    | cons entry rest ih =>
        rw [List.foldl_cons, ih, handBack_eq]
        split
        · rfl
        · rw [line]

theorem shape_dropInflight (d : Distributor) (v : Nat) : (d.dropInflight v).shape = d.shape :=
  dropInflight_kept shape_updateLine shape_updateInflight d v

end Distributor

theorem Act.shape_apply (a : Act) (d : Distributor) : (a.apply d).shape = d.shape := by
  cases a with
  | ask | note | call | control => rfl
  | clear v => exact d.shape_dropInflight v
  | _ => simp [apply]

theorem Steps.shape {σ : Type} {K : Act → Prop} {m m' : Machine σ} (steps : Steps K m m') :
    m'.dist.shape = m.dist.shape :=
  steps.kept (P := fun s => s.dist.shape = m.dist.shape)
    (fun _ step before => by rw [step.dist, Act.shape_apply, before]) rfl

namespace Machine

variable {σ : Type} [Host σ]

theorem shape_perform (m : Machine σ) (operation : Operation) :
    (m.perform operation).2.dist.shape = m.dist.shape :=
  (m.perform_steps operation).shape

/-- What a distributor is made with stays through every history. -/
theorem shape_run {config : Config} {host : σ} {m : Machine σ}
    (started : Machine.start config host = .ok m) (operations : List Operation) :
    (m.run operations).dist.shape = (config, config.sharedRanks, config.spis, config.vcpus) := by
  obtain ⟨-, rfl⟩ := start_eq_ok_iff.1 started
  exact run_induction (P := fun s : Machine σ =>
      s.dist.shape = (config, config.sharedRanks, config.spis, config.vcpus))
    (fun s operation before => (s.shape_perform operation).trans before)
    (Distributor.shape_create config) operations

end Machine

/-! ## Every line has registers -/

namespace Distributor

theorem rank?_updateRank (d : Distributor) (v index : Nat) (f : Rank → Rank) (w other : Nat) :
    (d.updateRank v index f).rank? w other =
      if other = index ∧ (index = 0 → v = w) then (d.rank? w other).map f
      else d.rank? w other := by
  cases index with
  | zero =>
      cases other with
      | zero =>
          simp only [updateRank, rank?, vcpu?_updateVcpu, true_and, forall_const]
          split
          · rw [Option.map_map, Option.map_map]
            rfl
          · rfl
      | succ other => simp [updateRank, updateVcpu, rank?]
  | succ index =>
      cases other with
      | zero => simp [updateRank, rank?, vcpu?]
      | succ other =>
          simp only [updateRank, rank?, Array.getElem?_modify, Nat.add_right_cancel_iff]
          by_cases same : index = other
          · simp [same]
          · simp [same, Ne.symm same]

/-- There are registers for every shared line. -/
def Ranked (d : Distributor) : Prop :=
  d.sharedLines.size ≤ linesPerRank * d.sharedRanks.size

theorem ranked_of_shape {d d' : Distributor} (same : d'.shape = d.shape) (ranked : d.Ranked) :
    d'.Ranked := by
  simp only [shape, Prod.mk.injEq] at same
  rw [Ranked, same.2.1, same.2.2.1]
  exact ranked

theorem ranked_create (config : Config) : (create config).Ranked := by
  simp only [Ranked, create, Array.size_ofFn, Array.size_replicate, Config.sharedRanks,
    linesPerRank]
  omega

theorem rankOf?_isSome {d : Distributor} (ranked : d.Ranked) {ref : LineRef}
    (there : (d.descriptor? ref).isSome = true) : (d.rankOf? ref).isSome = true := by
  cases ref with
  | banked v line =>
      rw [descriptor?_isSome_banked] at there
      rw [rankOf?, rank?, Option.isSome_map]
      exact there
  | shared index =>
      have inside : index < d.sharedLines.size := by simpa [descriptor?] using there
      rw [rankOf?_shared]
      simp only [Ranked, linesPerRank] at ranked ⊢
      have covered : index / 32 < d.sharedRanks.size := by omega
      simp [covered]

/-- A line that a VCPU sees is there as long as the VCPU has state. -/
theorem descriptor?_isSome_of_shape {d d' : Distributor} (same : d'.shape = d.shape) {v : Nat}
    {ref : LineRef} (seen : ref.SeenBy v) (present : (d'.vcpu? v).isSome = true)
    (there : (d.descriptor? ref).isSome = true) : (d'.descriptor? ref).isSome = true := by
  cases ref with
  | banked u line =>
      rw [show u = v from seen, descriptor?_isSome_banked]
      exact present
  | shared index =>
      simp only [shape, Prod.mk.injEq] at same
      simp only [descriptor?, isSome_getElem?] at there ⊢
      rw [same.2.2.1]
      exact there

/-- Whoever sees a line sees its registers, and a priority among them. -/
theorem rank?_of_line {d : Distributor} (ranked : d.Ranked) {v : Nat} {ref : LineRef}
    (seen : ref.SeenBy v) (there : (d.descriptor? ref).isSome = true) :
    ∃ rank, d.rank? v (rankOfLine ref.number) = some rank ∧
      rank.priority? (ref.number % linesPerRank) = some (d.priorityOf v ref.number) := by
  obtain ⟨rank, found⟩ := Option.isSome_iff_exists.1 (rankOf?_isSome ranked there)
  rw [← rank?_of_seenBy d seen] at found
  refine ⟨rank, found, ?_⟩
  have inside : ref.number % linesPerRank / 4 < Bank.priority.words := by
    simp only [linesPerRank, Bank.words]
    omega
  obtain ⟨word, held⟩ := Option.isSome_iff_exists.1
    ((rank.word?_isSome_iff .priority _).2 inside)
  simp [priorityOf, found, Rank.priority?, Rank.byte?, held]

end Distributor

theorem Machine.ranked_run {σ : Type} [Host σ] {config : Config} {host : σ} {m : Machine σ}
    (started : Machine.start config host = .ok m) (operations : List Operation) :
    (m.run operations).dist.Ranked := by
  apply Distributor.ranked_of_shape _ (Distributor.ranked_create config)
  rw [shape_run started, Distributor.shape_create]

end VirtualGic
