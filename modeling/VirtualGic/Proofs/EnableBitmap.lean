/-
# Proofs.EnableBitmap — enable bits and enable flags agree

Whether a line is enabled is written down twice: as a bit of its rank, which the guest
reads and writes, and as a flag of its descriptor, which decides about raises. A write
of the bitmap passes on only the bits that it changes, so the two could drift apart for
good. `enabled_iff_bit` says that they do not, as long as lines are enabled and disabled
by the guest alone and not by direct calls.

`flag?` and `bit?` are the two readings. Most acts leave both alone (`KeepsFlags`). A
write of the enable or disable registers is followed exactly: the bits it changes are
the lines whose flag it changes (`masked_iff`), and `Matched.of_write` compares the two.
-/
import VirtualGic.Proofs.History

namespace VirtualGic

set_option autoImplicit false

namespace Distributor

/-- The rank that has the registers of a line. -/
def rankOf? (d : Distributor) : LineRef → Option Rank
  | .banked v _ => d.rank? v 0
  | .shared index => d.rank? 0 (rankOfLine (linesPerRank + index))

/-- The enable bit of a line. -/
def bit? (d : Distributor) (ref : LineRef) : Option Bool :=
  (d.rankOf? ref).map (·.enable.getLsbD (ref.number % linesPerRank))

/-- The enable flag of a line. -/
def flag? (d : Distributor) (ref : LineRef) : Option Bool :=
  (d.descriptor? ref).map (·.status.enabled)

/-- Every line is enabled by its flag exactly if it is by its bit. -/
def Matched (d : Distributor) : Prop :=
  ∀ ref enabled, d.flag? ref = some enabled → d.bit? ref = some enabled

/-! ## Ranks after a change -/

theorem rankOfLine_shared (index : Nat) :
    rankOfLine (linesPerRank + index) = index / linesPerRank + 1 := by
  simp only [rankOfLine, linesPerRank]
  omega

theorem rankOf?_shared (d : Distributor) (index : Nat) :
    d.rankOf? (.shared index) = d.sharedRanks[index / linesPerRank]? := by
  rw [rankOf?, rankOfLine_shared]
  rfl

/-- Whoever sees a line sees its rank. -/
theorem rank?_of_seenBy (d : Distributor) {v : Nat} {ref : LineRef} (seen : ref.SeenBy v) :
    d.rank? v (rankOfLine ref.number) = d.rankOf? ref := by
  cases ref with
  | banked w line =>
      obtain rfl : w = v := seen
      have small := line.isLt
      have first : rankOfLine (LineRef.banked w line).number = 0 := by
        simp only [rankOfLine, LineRef.number, linesPerRank]
        omega
      rw [first]
      rfl
  | shared index =>
      rw [LineRef.number, rankOfLine_shared, rankOf?_shared]
      rfl

theorem rank?_updateVcpu {f : Vcpu → Vcpu} (keeps : ∀ vcpu, (f vcpu).rank = vcpu.rank)
    (d : Distributor) (v w index : Nat) : (d.updateVcpu v f).rank? w index = d.rank? w index := by
  cases index with
  | zero =>
      simp only [rank?, vcpu?_updateVcpu]
      split
      · rw [Option.map_map]
        exact congrArg (fun g => Option.map g _) (funext keeps)
      · rfl
  | succ index => rfl

theorem rank?_updateLine (d : Distributor) (ref : LineRef) (f : Descriptor → Descriptor)
    (v index : Nat) : (d.updateLine ref f).rank? v index = d.rank? v index := by
  cases ref with
  | banked w line =>
      rw [updateLine, rank?_updateVcpu]
      intro vcpu
      rfl
  | shared other => cases index <;> rfl

theorem rank?_updateInflight (d : Distributor) (w : Nat) (f : Inflight → Inflight)
    (v index : Nat) : (d.updateInflight w f).rank? v index = d.rank? v index := by
  rw [updateInflight, rank?_updateVcpu]
  intro vcpu
  rfl

theorem rank?_dropInflight (d : Distributor) (w v index : Nat) :
    (d.dropInflight w).rank? v index = d.rank? v index := by
  unfold dropInflight
  split
  · rfl
  · rename_i list held
    rw [← rank?_updateInflight d w (·.drain.2) v index]
    generalize d.updateInflight w (·.drain.2) = emptied
    induction list.drain.1 generalizing emptied with
    | nil => rfl
    | cons entry rest ih =>
        rw [List.foldl_cons, ih, handBack_eq]
        split
        · rfl
        · rw [rank?_updateLine]

theorem rankOf?_congr {d d' : Distributor} (same : ∀ v index, d'.rank? v index = d.rank? v index)
    (ref : LineRef) : d'.rankOf? ref = d.rankOf? ref := by
  cases ref with
  | banked v line => exact same v 0
  | shared index => exact same 0 _

theorem rankOf?_updateRank (d : Distributor) (v index : Nat) (f : Rank → Rank) (ref : LineRef) :
    (d.updateRank v index f).rankOf? ref =
      if ref.SeenBy v ∧ rankOfLine ref.number = index then (d.rankOf? ref).map f
      else d.rankOf? ref := by
  cases ref with
  | banked w line =>
      have small := line.isLt
      have first : rankOfLine (LineRef.banked w line).number = 0 := by
        simp only [rankOfLine, LineRef.number, linesPerRank]
        omega
      rw [first]
      cases index with
      | zero =>
          simp only [rankOf?, rank?, updateRank, vcpu?_updateVcpu, LineRef.SeenBy, and_true]
          by_cases same : w = v
          · rw [if_pos same.symm, if_pos same, Option.map_map, Option.map_map]
            rfl
          · rw [if_neg (fun same' => same same'.symm), if_neg same]
      | succ index => simp [rankOf?, rank?, updateRank, vcpu?]
  | shared other =>
      simp only [rankOf?_shared, LineRef.number, rankOfLine_shared, LineRef.SeenBy, true_and]
      cases index with
      | zero => simp [updateRank, updateVcpu]
      | succ index =>
          simp only [updateRank, Array.getElem?_modify, Nat.add_right_cancel_iff]
          by_cases same : index = other / linesPerRank
          · rw [if_pos same, if_pos same.symm]
          · rw [if_neg same, if_neg (fun same' => same same'.symm)]

theorem flag?_updateRank (d : Distributor) (v index : Nat) (f : Rank → Rank) (ref : LineRef) :
    (d.updateRank v index f).flag? ref = d.flag? ref := by
  rw [flag?, descriptor?_updateRank]
  rfl

theorem rankOf?_setVcpu_banked (d : Distributor) (v : Nat) (state : Option Vcpu) (w : Nat)
    (line : Fin 32) :
    (d.setVcpu v state).rankOf? (.banked w line) =
      if v = w ∧ v < d.vcpus.size then state.map (·.rank) else d.rankOf? (.banked w line) := by
  simp only [rankOf?, rank?, vcpu?_setVcpu]
  split <;> rfl

/-- A VCPU that comes has no line enabled; one that goes takes its lines along. -/
theorem Matched.setVcpu {d : Distributor} (matched : d.Matched) (v : Nat) {state : Option Vcpu}
    (idle : ∀ vcpu, state = some vcpu → vcpu.rank.enable = 0 ∧
      ∀ line : Fin 32, vcpu.lines.get line = Descriptor.idle line) :
    (d.setVcpu v state).Matched := by
  intro ref enabled flag
  cases ref with
  | shared index =>
      have bit := matched (.shared index) enabled flag
      rw [bit?, rankOf?_shared] at bit ⊢
      exact bit
  | banked w line =>
      rw [flag?, descriptor?_setVcpu_banked] at flag
      rw [bit?, rankOf?_setVcpu_banked]
      split at flag
      · rename_i here
        rw [if_pos here]
        obtain ⟨p, found, rfl⟩ := Option.map_eq_some_iff.1 flag
        obtain ⟨vcpu, made, rfl⟩ := Option.map_eq_some_iff.1 found
        obtain ⟨zero, idle⟩ := idle vcpu made
        rw [made, Option.map_some, Option.map_some, zero, idle line]
        simp [Descriptor.idle]
      · rename_i elsewhere
        rw [if_neg elsewhere]
        exact matched (.banked w line) enabled flag

/-- There is a rank for every shared line, and nothing is enabled in it at first. -/
theorem Matched.create (config : Config) : (Distributor.create config).Matched := by
  intro ref enabled flag
  obtain ⟨p, found, rfl⟩ := Option.map_eq_some_iff.1 flag
  obtain rfl := eq_idle_of_create found
  cases ref with
  | banked v line => simp [descriptor?, vcpu?_create] at found
  | shared index =>
      have inside : index < config.spis := by
        simpa [Distributor.create, descriptor?] using (Array.getElem?_eq_some_iff.1 found).1
      have covered : index / linesPerRank < config.sharedRanks := by
        simp only [Config.sharedRanks, linesPerRank]
        omega
      rw [bit?, rankOf?_shared]
      simp [Distributor.create, covered, Rank.zero, Descriptor.idle]

end Distributor

/-! ## Acts -/

namespace Act

/-- Acts that leave every enable flag and every enable bit. -/
def KeepsFlags : Act → Prop
  | store _ _ f => ∀ rank, (f rank).enable = rank.enable
  | touch _ .disabled | enable _ | allocate .. | release _ => False
  | _ => True

variable {a : Act} {d : Distributor}

theorem Delivers.keepsFlags {S : LineRef → Prop} (delivers : a.Delivers S) : a.KeepsFlags := by
  cases a <;> trivial

theorem Idles.keepsFlags (idles : a.Idles) : a.KeepsFlags :=
  (idles.delivers fun _ => True).keepsFlags

theorem flag?_apply_of_change? {target : LineRef} {f : Descriptor → Descriptor}
    (change : a.change? = some (target, f))
    (keeps : ∀ p, (f p).status.enabled = p.status.enabled) (ref : LineRef) :
    (a.apply d).flag? ref = d.flag? ref := by
  rw [Distributor.flag?, descriptor?_apply_of_change? change]
  split
  · rw [Option.map_map]
    exact congrArg (fun g => Option.map g _) (funext keeps)
  · rfl

theorem KeepsFlags.flag?_apply (keeps : a.KeepsFlags) (ref : LineRef) :
    (a.apply d).flag? ref = d.flag? ref := by
  cases a with
  | ask | note | call | control | store =>
      rw [Distributor.flag?, Registers.descriptor?_apply (by trivial)]
      rfl
  | touch target report =>
      refine flag?_apply_of_change? rfl (fun p => ?_) ref
      cases report with
      | disabled => exact keeps.elim
      | _ => rfl
  | retrigger | link | keep =>
      refine flag?_apply_of_change? rfl ?_ ref
      intro p
      rfl
  | unlink holder target =>
      exact flag?_apply_of_change? rfl (fun p => by rw [Descriptor.handBack_status]; rfl) ref
  | clear v =>
      rw [apply]
      cases held : d.inflight? v with
      | none => rw [Distributor.dropInflight_of_none held]
      | some list =>
          rw [Distributor.flag?, Distributor.descriptor?_dropInflight held]
          split
          · rw [Option.map_map]
            refine congrArg (fun g => Option.map g _) (funext fun p => ?_)
            rw [Function.comp_apply, Descriptor.handBack_status]
            rfl
          · rfl
  | enable | allocate | release => exact keeps.elim

/-- Registers are only ever written by the acts of writing them. -/
theorem rank?_apply (fixed : match a with
    | store .. | allocate .. | release _ => False
    | _ => True) (v index : Nat) : (a.apply d).rank? v index = d.rank? v index := by
  cases a with
  | ask | note | call => rfl
  | control => cases index <;> rfl
  | touch | enable | retrigger | keep => exact Distributor.rank?_updateLine ..
  | link | unlink =>
      exact (Distributor.rank?_updateInflight ..).trans (Distributor.rank?_updateLine ..)
  | clear => exact Distributor.rank?_dropInflight ..
  | store | allocate | release => exact fixed.elim

theorem bit?_apply (fixed : match a with
    | store .. | allocate .. | release _ => False
    | _ => True) (ref : LineRef) : (a.apply d).bit? ref = d.bit? ref := by
  rw [Distributor.bit?, Distributor.rankOf?_congr (rank?_apply fixed)]
  rfl

theorem KeepsFlags.bit?_apply (keeps : a.KeepsFlags) (ref : LineRef) :
    (a.apply d).bit? ref = d.bit? ref := by
  cases a with
  | store v index f =>
      rw [Distributor.bit?, apply, Distributor.rankOf?_updateRank]
      split
      · rw [Option.map_map]
        refine congrArg (fun g => Option.map g _) (funext fun rank => ?_)
        rw [Function.comp_apply, keeps rank]
      · rfl
  | allocate | release => exact keeps.elim
  | _ => exact Act.bit?_apply (by trivial) ref

/-- Acts after which flags and bits still match. -/
def KeepsMatched : Act → Prop
  | allocate .. | release _ => True
  | a => a.KeepsFlags

theorem KeepsFlags.keepsMatched (keeps : a.KeepsFlags) : a.KeepsMatched := by
  cases a with
  | allocate | release => trivial
  | _ => exact keeps

theorem KeepsMatched.apply (keeps : a.KeepsMatched) (allowed : a.Allowed d)
    (matched : d.Matched) : (a.apply d).Matched := by
  have same : a.KeepsFlags → (a.apply d).Matched := by
    intro keeps ref enabled flag
    rw [keeps.flag?_apply] at flag
    rw [keeps.bit?_apply]
    exact matched ref enabled flag
  cases a with
  | allocate v vcpu =>
      obtain ⟨-, -, capacity, -, created⟩ := allowed
      refine matched.setVcpu v ?_
      rintro _ ⟨⟩
      obtain ⟨masked, idle, -⟩ := Vcpu.idle_of_create created
      exact ⟨masked, idle⟩
  | release v => exact matched.setVcpu v (by rintro _ ⟨⟩)
  | _ => exact same keeps

end Act

section Courses

variable {σ : Type} {K : Act → Prop} {m m' : Machine σ}

theorem Steps.flag?_kept (steps : Steps K m m') (keeps : ∀ a, K a → a.KeepsFlags)
    (ref : LineRef) : m'.dist.flag? ref = m.dist.flag? ref := by
  refine steps.kept (P := fun s => s.dist.flag? ref = m.dist.flag? ref) ?_ rfl
  intro b a c kind step before
  rw [step.dist, (keeps a kind).flag?_apply, before]

theorem Steps.bit?_kept (steps : Steps K m m')
    (fixed : ∀ a, K a → match a with | .store .. | .allocate .. | .release _ => False | _ => True)
    (ref : LineRef) : m'.dist.bit? ref = m.dist.bit? ref := by
  refine steps.kept (P := fun s => s.dist.bit? ref = m.dist.bit? ref) ?_ rfl
  intro b a c kind step before
  rw [step.dist, Act.bit?_apply (fixed a kind), before]

theorem Steps.matched_kept (steps : Steps K m m') (keeps : ∀ a, K a → a.KeepsMatched)
    (matched : m.dist.Matched) : m'.dist.Matched := by
  refine steps.kept (P := fun s => s.dist.Matched) ?_ matched
  intro b a c kind step before
  rw [step.dist]
  exact (keeps a kind).apply step.allowed before

end Courses

/-! ## Lines of a mask -/

/-- In the ranks of a frame, a mask names the lines whose bit it has. -/
theorem LineRef.masked_iff {v rank : Nat} {mask : Word} {ref : LineRef} (low : rank < 32) :
    ref.Masked v mask rank ↔
      ref.SeenBy v ∧ rankOfLine ref.number = rank ∧
        mask.getLsbD (ref.number % linesPerRank) = true := by
  have fits : maskedLines rank mask =
      .ok ((SetBits.mk mask).toList.map fun bit => (rank * linesPerRank + bit) % range32) := by
    unfold maskedLines
    rw [if_neg]
    simp only [linesPerRank, range64]
    omega
  unfold Masked Named
  rw [fits]
  simp only [Except.ok.injEq, exists_eq_left', List.mem_map, SetBits.mem_toList_iff]
  constructor
  · rintro ⟨seen, bit, named, number⟩
    have small : bit < 32 := BitVec.lt_of_getLsbD named
    have split : ref.number = 32 * rank + bit := by
      simp only [linesPerRank, range32] at number
      omega
    have same : ref.number % linesPerRank = bit := by
      simp only [linesPerRank]
      omega
    rw [same]
    refine ⟨seen, ?_, named⟩
    simp only [rankOfLine, linesPerRank]
    omega
  · rintro ⟨seen, rfl, named⟩
    refine ⟨seen, _, named, ?_⟩
    simp only [rankOfLine, linesPerRank, range32] at low ⊢
    omega

/-- A change of one line after the other is a change of all of them. -/
theorem flag?_foldl {σ : Type} {f : Machine σ → Nat → Machine σ} {P : Machine σ → Prop}
    {v : Nat} {enabled : Bool} {ref : LineRef}
    (keeps : ∀ m line, P m → P (f m line))
    (one : ∀ m line, P m → (f m line).dist.flag? ref =
      if ref.Named v [line] then (m.dist.flag? ref).map (fun _ => enabled) else m.dist.flag? ref)
    (lines : List Nat) (m : Machine σ) (start : P m) :
    (lines.foldl f m).dist.flag? ref =
      if ref.Named v lines then (m.dist.flag? ref).map (fun _ => enabled)
      else m.dist.flag? ref := by
  induction lines generalizing m with
  | nil =>
      rw [if_neg (by simp [LineRef.Named])]
      rfl
  | cons line rest ih =>
      rw [List.foldl_cons, ih (f m line) (keeps m line start), one m line start]
      by_cases seen : ref.SeenBy v
      · by_cases here : ref.number = line
        · by_cases later : ref.number ∈ rest
          · simp [LineRef.Named, seen, here, here ▸ later, Option.map_map, Function.comp_def]
          · simp [LineRef.Named, seen, here, here ▸ later]
        · simp [LineRef.Named, seen, here]
      · simp [LineRef.Named, seen]

namespace Machine

variable {σ : Type} [Host σ]

/-- The change of the one line that a VCPU sees under a number. -/
theorem flag?_change_named {d : Distributor} {v line : Nat} {target : LineRef}
    (found : d.lineRef? v line = some target) (enabled : Bool) (ref : LineRef) :
    (d.updateLine target (Descriptor.setEnabled enabled)).flag? ref =
      if ref.Named v [line] then (d.flag? ref).map (fun _ => enabled) else d.flag? ref := by
  obtain ⟨number, seen, -⟩ := Distributor.lineRef?_eq_some_iff.1 found
  rw [Distributor.flag?, Distributor.descriptor?_updateLine]
  by_cases same : target = ref
  · subst same
    rw [if_pos rfl, if_pos ⟨seen, List.mem_singleton.2 number⟩, Distributor.flag?, Option.map_map,
      Option.map_map]
    rfl
  · rw [if_neg same, if_neg]
    · rfl
    · rintro ⟨seen', number'⟩
      have numbers : target.number = ref.number := number.trans (List.mem_singleton.1 number').symm
      exact same (LineRef.eq_of_seenBy seen seen' numbers)

theorem flag?_of_unnamed {d : Distributor} {v line : Nat} (absent : d.lineRef? v line = none)
    (enabled : Bool) (ref : LineRef) :
    d.flag? ref =
      if ref.Named v [line] then (d.flag? ref).map (fun _ => enabled) else d.flag? ref := by
  split
  · rename_i named
    cases found : d.descriptor? ref with
    | none => simp [Distributor.flag?, found]
    | some p =>
        have there : d.lineRef? v line = some ref := Distributor.lineRef?_eq_some_iff.2
          ⟨List.mem_singleton.1 named.2, named.1, by simp [found]⟩
        rw [absent] at there
        cases there
  · rfl

theorem flag?_showEnabled (m : Machine σ) {v line : Nat} {target : LineRef}
    (found : m.dist.lineRef? v line = some target) (present : (m.dist.vcpu? v).isSome = true)
    (ref : LineRef) : (m.showEnabled v line target).dist.flag? ref = m.dist.flag? ref := by
  obtain ⟨-, seen, there⟩ := Distributor.lineRef?_eq_some_iff.1 found
  unfold showEnabled
  split
  · simp only
    split
    · have delivered := steps_deliver (m.upcallPending v).2 seen there present
      exact delivered.flag?_kept (fun _ delivers => delivers.keepsFlags) ref
    · rw [dist_raiseHidden, dist_upcallPending]
  · rw [dist_raiseHidden]

theorem flag?_enableLine {v : Nat} (m : Machine σ) (line : Nat)
    (present : (m.dist.vcpu? v).isSome = true) (ref : LineRef) :
    (enableLine v m line).dist.flag? ref =
      if ref.Named v [line] then (m.dist.flag? ref).map (fun _ => true)
      else m.dist.flag? ref := by
  unfold enableLine
  split
  · rename_i absent
    exact flag?_of_unnamed absent true ref
  · rename_i target found
    rw [(steps_enablePhysical _ target).flag?_kept (fun _ idle => idle.keepsFlags),
      flag?_showEnabled]
    · exact flag?_change_named found true ref
    · obtain ⟨number, seen, there⟩ := Distributor.lineRef?_eq_some_iff.1 found
      refine Distributor.lineRef?_eq_some_iff.2 ⟨number, seen, ?_⟩
      rw [dist_modify, Distributor.descriptor?_updateLine_self, Option.isSome_map]
      exact there
    · rw [dist_modify, vcpu?_isSome_updateLine]
      exact present

theorem flag?_disableLine {v : Nat} (m : Machine σ) (line : Nat) (ref : LineRef) :
    (disableLine (fun _ => []) v m line).dist.flag? ref =
      if ref.Named v [line] then (m.dist.flag? ref).map (fun _ => false)
      else m.dist.flag? ref := by
  unfold disableLine
  split
  · rename_i absent
    exact flag?_of_unnamed absent false ref
  · rename_i target found
    obtain ⟨number, -, -⟩ := Distributor.lineRef?_eq_some_iff.1 found
    rw [(steps_disablePhysical _ target).flag?_kept (fun _ idle => idle.keepsFlags),
      (steps_dequeue _ number).flag?_kept]
    · exact flag?_change_named found false ref
    · rintro a (idle | ⟨holder, rfl⟩)
      · exact idle.keepsFlags
      · trivial

/-! ## Masks -/

omit [Host σ] in
/-- A mask over the lines of a rank, served one line after the other. -/
theorem flag?_masked {m m' : Machine σ} {v rank : Nat} {mask : Word} {enabled : Bool}
    {ref : LineRef} (low : rank < 32)
    (refused : ∀ fault, maskedLines rank mask = .error fault → m' = m)
    (served : ∀ lines, maskedLines rank mask = .ok lines → m'.dist.flag? ref =
      if ref.Named v lines then (m.dist.flag? ref).map (fun _ => enabled)
      else m.dist.flag? ref) :
    m'.dist.flag? ref =
      if ref.SeenBy v ∧ rankOfLine ref.number = rank ∧
          mask.getLsbD (ref.number % linesPerRank) = true then
        (m.dist.flag? ref).map (fun _ => enabled)
      else m.dist.flag? ref := by
  by_cases masked : ref.Masked v mask rank
  · rw [if_pos ((LineRef.masked_iff low).1 masked)]
    obtain ⟨lines, fits, named⟩ := masked
    rw [served lines fits, if_pos named]
  · rw [if_neg fun held => masked ((LineRef.masked_iff low).2 held)]
    cases fits : maskedLines rank mask with
    | error fault => rw [refused fault fits]
    | ok lines => rw [served lines fits, if_neg fun named => masked ⟨lines, fits, named⟩]

theorem flag?_enableMask {v rank : Nat} {mask : Word} (m : Machine σ) (low : rank < 32)
    (present : (m.dist.vcpu? v).isSome = true) (ref : LineRef) :
    (m.enableMask v mask rank).2.dist.flag? ref =
      if ref.SeenBy v ∧ rankOfLine ref.number = rank ∧
          mask.getLsbD (ref.number % linesPerRank) = true then
        (m.dist.flag? ref).map (fun _ => true)
      else m.dist.flag? ref := by
  refine flag?_masked low ?_ ?_
  · intro fault refused
    simp [enableMask, refused]
  · intro lines fits
    have still : ∀ (m : Machine σ) line, (m.dist.vcpu? v).isSome = true →
        ((enableLine v m line).dist.vcpu? v).isSome = true := by
      intro m line present
      refine present_of_steps ?_ (steps_enableLine m line present) present
      intro a enables
      cases a <;> trivial
    simp only [enableMask, fits]
    exact flag?_foldl still (fun m line present => flag?_enableLine m line present ref) lines m
      present

theorem flag?_disableMask {v rank : Nat} {mask : Word} (m : Machine σ) (low : rank < 32)
    (ref : LineRef) :
    (m.disableMask (fun _ => []) v mask rank).2.dist.flag? ref =
      if ref.SeenBy v ∧ rankOfLine ref.number = rank ∧
          mask.getLsbD (ref.number % linesPerRank) = true then
        (m.dist.flag? ref).map (fun _ => false)
      else m.dist.flag? ref := by
  refine flag?_masked low ?_ ?_
  · intro fault refused
    simp [disableMask, refused]
  · intro lines fits
    simp only [disableMask, fits]
    exact flag?_foldl (P := fun _ => True) (fun _ _ _ => trivial)
      (fun m line _ => flag?_disableLine m line ref) lines m trivial

end Machine

/-! ## Writes of the enable bitmap -/

/-- A write of a rank's bitmap that gives the lines it changes the flag their bit gets. -/
theorem Distributor.Matched.of_write {d d' : Distributor} {v index : Nat} {rank : Rank}
    {changed : Word} {enabled : Bool} (matched : d.Matched) (write : Word → Word)
    (found : d.rank? v index = some rank)
    (flags : ∀ ref, d'.flag? ref =
      if ref.SeenBy v ∧ rankOfLine ref.number = index ∧
          changed.getLsbD (ref.number % linesPerRank) = true then
        (d.flag? ref).map (fun _ => enabled)
      else d.flag? ref)
    (bits : ∀ ref, d'.bit? ref = (d.updateRank v index fun rank =>
      { rank with enable := write rank.enable }).bit? ref)
    (agree : ∀ bit < linesPerRank, (write rank.enable).getLsbD bit =
      if changed.getLsbD bit = true then enabled else rank.enable.getLsbD bit) :
    d'.Matched := by
  intro ref flag found'
  rw [bits, bit?, rankOf?_updateRank]
  rw [flags] at found'
  by_cases inside : ref.SeenBy v ∧ rankOfLine ref.number = index
  · obtain ⟨seen, rfl⟩ := inside
    have here : d.rankOf? ref = some rank := (d.rank?_of_seenBy seen).symm.trans found
    rw [if_pos ⟨seen, rfl⟩, here, Option.map_some, Option.map_some,
      agree _ (Nat.mod_lt _ (by decide))]
    by_cases hit : changed.getLsbD (ref.number % linesPerRank) = true
    · rw [if_pos ⟨seen, rfl, hit⟩] at found'
      obtain ⟨old, -, rfl⟩ := Option.map_eq_some_iff.1 found'
      rw [if_pos hit]
    · rw [if_neg fun held => hit held.2.2] at found'
      rw [if_neg hit, ← matched ref flag found', bit?, here]
      rfl
  · rw [if_neg fun held => inside ⟨held.1, held.2.1⟩] at found'
    rw [if_neg inside]
    exact matched ref flag found'

theorem Frame.rankIndex_lt_of_enable {offset : Nat} {group : Group}
    (found : Frame.group? offset = some group)
    (masks : group.register = .setEnable ∨ group.register = .clearEnable) :
    rankIndex Bank.enable.words (offset - group.first) < 32 := by
  obtain ⟨member, inside⟩ := Frame.group?_eq_some_iff.1 found
  have size : ∀ group ∈ Frame.groups,
      (group.register = .setEnable ∨ group.register = .clearEnable) →
      group.last + 4 = group.first + 128 := by
    decide
  have last := size group member masks
  simp only [Group.contains, Bool.and_eq_true, decide_eq_true_eq] at inside
  simp only [rankIndex, Bank.words]
  omega

namespace Machine

variable {σ : Type} [Host σ] {m : Machine σ}

theorem matched_writeSetEnable {v : Nat} {access : Access} {value : Word}
    (matched : m.dist.Matched) (low : rankIndex Bank.enable.words access.position < 32)
    (present : (m.dist.vcpu? v).isSome = true) :
    (m.writeSetEnable v access value).2.dist.Matched := by
  unfold writeSetEnable
  generalize rankIndex Bank.enable.words access.position = index at low ⊢
  simp only
  split
  · exact matched
  · rename_i rank found
    have agree : ∀ bit < linesPerRank, (rank.enable ||| value).getLsbD bit =
        if (value &&& ~~~rank.enable).getLsbD bit = true then true
        else rank.enable.getLsbD bit := by
      intro bit inside
      have inside : bit < 32 := inside
      simp only [BitVec.getLsbD_or, BitVec.getLsbD_and, BitVec.getLsbD_not, inside]
      cases value.getLsbD bit <;> cases rank.enable.getLsbD bit <;> rfl
    have alive : ((m.dist.updateRank v index fun rank =>
        { rank with enable := rank.enable ||| value }).vcpu? v).isSome = true := by
      rw [← Distributor.inflight?_isSome, Distributor.inflight?_updateRank,
        Distributor.inflight?_isSome]
      exact present
    split
    · rename_i unchanged
      refine matched.of_write (· ||| value) found (fun ref => ?_) (fun ref => rfl) agree
      rw [unchanged, if_neg (by simp)]
      exact m.dist.flag?_updateRank v index _ ref
    · refine matched.of_write (· ||| value) found (fun ref => ?_) (fun ref => ?_) agree
      · rw [flag?_enableMask _ low alive, dist_modify, Distributor.flag?_updateRank]
      · refine (steps_enableMask _ alive).bit?_kept ?_ ref
        intro a enables
        cases a <;> trivial

theorem matched_writeClearEnable {v : Nat} {access : Access} {value : Word}
    (matched : m.dist.Matched) (low : rankIndex Bank.enable.words access.position < 32) :
    (m.writeClearEnable v access value).2.dist.Matched := by
  unfold writeClearEnable
  generalize rankIndex Bank.enable.words access.position = index at low ⊢
  simp only
  split
  · exact matched
  · rename_i rank found
    have agree : ∀ bit < linesPerRank, (rank.enable &&& ~~~value).getLsbD bit =
        if (value &&& rank.enable).getLsbD bit = true then false
        else rank.enable.getLsbD bit := by
      intro bit inside
      have inside : bit < 32 := inside
      simp only [BitVec.getLsbD_and, BitVec.getLsbD_not, inside]
      cases value.getLsbD bit <;> cases rank.enable.getLsbD bit <;> rfl
    split
    · rename_i unchanged
      refine matched.of_write (· &&& ~~~value) found (fun ref => ?_) (fun ref => rfl) agree
      rw [unchanged, if_neg (by simp)]
      exact m.dist.flag?_updateRank v index _ ref
    · refine matched.of_write (· &&& ~~~value) found (fun ref => ?_) (fun ref => ?_) agree
      · rw [flag?_disableMask _ low, dist_modify, Distributor.flag?_updateRank]
      · refine (steps_disableMask _).bit?_kept ?_ ref
        intro a disables
        cases a <;> trivial

end Machine

theorem Register.keepsFlags_of_takes {d : Distributor} {v position : Nat} {value : Word}
    {register : Register} {a : Act} (takes : register.Takes d v position value a)
    (set : register ≠ .setEnable) (clear : register ≠ .clearEnable) : a.KeepsFlags := by
  cases register with
  | setEnable => exact absurd rfl set
  | clearEnable => exact absurd rfl clear
  | control =>
      obtain idle | ⟨enabled, rfl⟩ := takes
      · exact idle.keepsFlags
      · trivial
  | clearActive | priority | targets | trigger =>
      obtain idle | ⟨index, f, rfl, keeps⟩ := takes
      · exact idle.keepsFlags
      · exact keeps
  | softwareInterrupt => exact Act.Delivers.keepsFlags takes
  | _ => exact Act.Idles.keepsFlags takes

/-- Direct calls that enable or disable lines, past the bitmap. -/
def Operation.masksDirectly : Operation → Bool
  | .enableLines .. | .disableLines .. => true
  | _ => false

namespace Machine

variable {σ : Type} [Host σ] {m : Machine σ}

theorem matched_writeRegister {v : Nat} {access : Access} {value : Word} {register : Register}
    (matched : m.dist.Matched) (present : (m.dist.vcpu? v).isSome = true)
    (low : register = .setEnable ∨ register = .clearEnable →
      rankIndex Bank.enable.words access.position < 32) :
    (m.writeRegister v access value register).2.dist.Matched := by
  by_cases set : register = .setEnable
  · subst set
    exact matched_writeSetEnable matched (low (.inl rfl)) present
  · by_cases clear : register = .clearEnable
    · subst clear
      exact matched_writeClearEnable matched (low (.inr rfl))
    · exact (m.steps_writeRegister access value register present).matched_kept
        (fun a takes => (Register.keepsFlags_of_takes takes set clear).keepsMatched) matched

theorem matched_write (matched : m.dist.Matched) (v offset : Nat) (width : Width)
    (value : Word) : (m.write v offset width value).2.dist.Matched := by
  unfold write
  split
  · exact matched
  · rename_i vcpu required
    have present := Distributor.present_of_requireVcpu required
    cases decoded : m.decode v offset width with
    | mk answer after =>
        cases answer with
        | error error =>
            have idles := steps_decode m v offset width
            rw [decoded] at idles
            exact idles.matched_kept (fun a idle => idle.keepsFlags.keepsMatched) matched
        | ok group =>
            obtain ⟨⟨found, -⟩, rfl⟩ := accepts_of_decode decoded
            exact matched_writeRegister matched present (Frame.rankIndex_lt_of_enable found)

/-- Flags and bits match after every operation by which the guest, or anybody who enables
and disables no line, acts. -/
theorem matched_perform {operation : Operation} (matched : m.dist.Matched)
    (guest : operation.masksDirectly = false) :
    (m.perform operation).2.dist.Matched := by
  have steps := m.perform_steps operation
  cases operation with
  | enableLines | disableLines => cases guest
  | write v offset width value => exact matched_write matched v offset width value
  | writeAt v address width value =>
      show (m.writeAt v address width value).2.dist.Matched
      unfold writeAt
      split
      · exact matched
      · exact matched_write matched v _ width value
  | initVcpu v =>
      refine steps.matched_kept ?_ matched
      rintro a (idle | ⟨vcpu, rfl⟩)
      · exact idle.keepsFlags.keepsMatched
      · trivial
  | freeVcpu v =>
      refine steps.matched_kept ?_ matched
      rintro a (idle | rfl | rfl)
      · exact idle.keepsFlags.keepsMatched
      · trivial
      · trivial
  | clearPending v =>
      refine steps.matched_kept ?_ matched
      rintro a (idle | rfl)
      · exact idle.keepsFlags.keepsMatched
      · trivial
  | read | readAt | inflightLines | pendingStatus =>
      exact steps.matched_kept (fun a idle => (Act.Idles.keepsFlags idle).keepsMatched) matched
  | inject | injectSpi | dispatchSoftware =>
      exact steps.matched_kept (fun a delivers => (Act.Delivers.keepsFlags delivers).keepsMatched)
        matched
  | setVisible | setActive | unroutePhysical =>
      refine steps.matched_kept ?_ matched
      rintro a ⟨ref, -, rfl⟩
      trivial
  | routePhysical =>
      refine steps.matched_kept ?_ matched
      rintro a (idle | ⟨ref, -, rfl⟩)
      · exact idle.keepsFlags.keepsMatched
      · trivial
  | retire =>
      refine steps.matched_kept ?_ matched
      rintro a ⟨ref, -, takes⟩
      split at takes
      · subst takes
        trivial
      · rcases takes with rfl | rfl <;> trivial

theorem matched_run {config : Config} {host : σ} (started : Machine.start config host = .ok m)
    {operations : List Operation}
    (guest : ∀ operation ∈ operations, operation.masksDirectly = false) :
    (m.run operations).dist.Matched := by
  obtain ⟨-, rfl⟩ := start_eq_ok_iff.1 started
  suffices whole : ∀ m : Machine σ, m.dist.Matched → (m.run operations).dist.Matched from
    whole _ (.create config)
  clear started
  induction operations with
  | nil => exact fun m matched => matched
  | cons operation rest ih =>
      intro m matched
      exact ih (fun other member => guest other (List.mem_cons_of_mem _ member)) _
        (matched_perform matched (guest operation List.mem_cons_self))

/-- After a history without direct calls that enable or disable lines, a line is enabled by
its descriptor exactly if it is by its bit in the rank where its VCPU finds it. -/
theorem enabled_iff_bit {config : Config} {host : σ}
    (started : Machine.start config host = .ok m) {operations : List Operation}
    (guest : ∀ operation ∈ operations, operation.masksDirectly = false) {v line : Nat}
    {p : Descriptor} (found : (m.run operations).dist.line? v line = some p) :
    ∃ rank, (m.run operations).dist.rank? v (rankOfLine line) = some rank ∧
      (p.status.enabled = true ↔ rank.enable.getLsbD (line % linesPerRank) = true) := by
  obtain ⟨ref, rfl, seen, there⟩ := Distributor.line?_eq_some_iff.1 found
  have bit := matched_run started guest ref p.status.enabled
    (Option.map_eq_some_iff.2 ⟨p, there, rfl⟩)
  obtain ⟨rank, held, same⟩ := Option.map_eq_some_iff.1 bit
  exact ⟨rank, (Distributor.rank?_of_seenBy _ seen).trans held, by rw [same]⟩

/-- Line 40 is enabled by VCPU 1 and raised on VCPU 0, which is released. -/
theorem enabled_iff_bit_released :
    let m : Machine SteadyHost := .fresh (.forHardware 2 64) { up := [0, 1] }
    let ended := m.run [.initVcpu 0, .initVcpu 1, .write 1 0x104 .word 0x100, .inject 0 40,
      .freeVcpu 0]
    ∃ p rank, ended.dist.line? 1 40 = some p ∧ ended.dist.rank? 1 1 = some rank ∧
      p.status.enabled = true ∧ rank.enable.getLsbD 8 = true := by
  intro m ended
  have started : Machine.start (.forHardware 2 64) ({ up := [0, 1] } : SteadyHost) = .ok m := rfl
  have enabled : (ended.dist.line? 1 40).any (·.status.enabled) = true := by decide +kernel
  obtain ⟨p, found, enabled⟩ := (Option.any_eq_true ..).1 enabled
  obtain ⟨rank, held, same⟩ := enabled_iff_bit started (by decide) found
  exact ⟨p, rank, found, held, enabled, same.1 enabled⟩

end Machine

end VirtualGic
