/-
# Proofs.Validation — what a configuration is accepted for

`Config.Sound` says over the integers which configurations a distributor can be made from: one
to eight VCPUs, no more lines than the architecture has, a page-aligned base, and an upcall line
that exists. By `exact_decision`, `validate` accepts exactly these and refuses any other one by the
first of its defects, and so does `Machine.start`.

The one gap is the count of the lines, a 32-bit sum that is made before it is compared. Where it
does not fit, there is no decision but a fault: `uncounted_is_no_refusal` is a configuration with
too many shared lines that is not refused for it. The configurations of the hardware domain are
on the right side of the gap, since their shared lines leave out the private ones.
-/
import VirtualGic.Proofs.History

namespace VirtualGic

set_option autoImplicit false

/-- The configurations that a distributor can be made from. -/
structure Config.Sound (config : Config) : Prop where
  nonempty : 1 ≤ config.vcpus
  few : config.vcpus ≤ maxVcpus
  lines : linesPerRank + config.spis ≤ maxLines
  aligned : pageSize ∣ config.base.toNat
  upcall : config.upcallLine < linesPerRank + config.spis

/-! ## Defects -/

namespace ConfigDefect

/-- Whether a configuration has the defect. -/
def In (config : Config) : ConfigDefect → Prop
  | vcpuCount => config.vcpus = 0 ∨ maxVcpus < config.vcpus
  | lineCount => maxLines < linesPerRank + config.spis
  | baseAlignment => ¬ pageSize ∣ config.base.toNat
  | upcallLine => linesPerRank + config.spis ≤ config.upcallLine

instance (config : Config) : (defect : ConfigDefect) → Decidable (defect.In config)
  | vcpuCount => inferInstanceAs (Decidable (config.vcpus = 0 ∨ maxVcpus < config.vcpus))
  | lineCount => inferInstanceAs (Decidable (maxLines < linesPerRank + config.spis))
  | baseAlignment => inferInstanceAs (Decidable (¬ pageSize ∣ config.base.toNat))
  | upcallLine => inferInstanceAs (Decidable (linesPerRank + config.spis ≤ config.upcallLine))

/-- The defects in the order in which they are looked for. -/
def all : List ConfigDefect :=
  [vcpuCount, lineCount, baseAlignment, upcallLine]

theorem mem_all (defect : ConfigDefect) : defect ∈ all := by
  cases defect <;> decide

end ConfigDefect

namespace Config

/-- The first defect of a configuration. -/
def defect? (config : Config) : Option ConfigDefect :=
  ConfigDefect.all.find? fun defect => defect.In config

/-- The VCPUs are in order, but the number of lines does not fit into 32 bits. -/
def Uncounted (config : Config) : Prop :=
  ¬ ConfigDefect.vcpuCount.In config ∧ range32 ≤ linesPerRank + config.spis

instance (config : Config) : Decidable config.Uncounted :=
  inferInstanceAs (Decidable (_ ∧ _))

variable {config : Config}

theorem sound_iff : config.Sound ↔ ∀ defect : ConfigDefect, ¬ defect.In config := by
  constructor
  · rintro ⟨nonempty, few, lines, aligned, upcall⟩ defect
    cases defect with
    | vcpuCount => simp only [ConfigDefect.In]; omega
    | lineCount => exact Nat.not_lt.2 lines
    | baseAlignment => exact not_not_intro aligned
    | upcallLine => exact Nat.not_le.2 upcall
  · intro absent
    have vcpus := absent .vcpuCount
    simp only [ConfigDefect.In] at vcpus
    exact ⟨by omega, by omega, Nat.not_lt.1 (absent .lineCount),
      Decidable.not_not.1 (absent .baseAlignment), Nat.not_le.1 (absent .upcallLine)⟩

theorem defect?_eq_none_iff : config.defect? = none ↔ config.Sound := by
  simp [defect?, sound_iff, ConfigDefect.mem_all]

theorem in_of_defect?_eq_some {defect : ConfigDefect} (found : config.defect? = some defect) :
    defect.In config := by
  simpa using List.find?_some found

/-- A sound configuration has few lines, and a count of few lines fits. -/
theorem not_uncounted (sound : config.Sound) : ¬ config.Uncounted := by
  rintro ⟨-, large⟩
  have lines := sound.lines
  simp only [maxLines, range32] at lines large
  omega

/-- The shared lines of the hardware domain are counted without the private ones, so that the
sum is the number it was made from, or the private lines alone. -/
theorem not_uncounted_forHardware (vcpus : Nat) {lines : Nat} (small : lines < range32) :
    ¬ (forHardware vcpus lines).Uncounted := by
  rintro ⟨-, large⟩
  simp only [forHardware, linesPerRank, range32] at small large
  omega

theorem sound_forHardware_iff (vcpus lines : Nat) :
    (forHardware vcpus lines).Sound ↔ 1 ≤ vcpus ∧ vcpus ≤ maxVcpus ∧ lines ≤ maxLines := by
  constructor
  · rintro ⟨nonempty, few, fits, -, -⟩
    simp only [forHardware, linesPerRank, maxLines] at fits ⊢
    exact ⟨nonempty, few, by omega⟩
  · rintro ⟨nonempty, few, fits⟩
    have aligned : pageSize ∣ standard.base.toNat := by decide
    refine ⟨nonempty, few, ?_, aligned, ?_⟩
    all_goals
      simp only [forHardware, forGuest, linesPerRank, maxLines] at *
      omega

/-! ## The decision -/

/-- Validation in one line: the count, then the first defect. -/
theorem validate_eq (config : Config) : config.validate =
    if config.Uncounted then .error (.fault .arithmeticOverflow)
    else match config.defect? with
      | some defect => .error (.refused (.invalidConfig defect))
      | none => .ok () := by
  unfold validate
  by_cases vcpus : config.vcpus = 0 ∨ maxVcpus < config.vcpus
  · have first : config.defect? = some .vcpuCount :=
      List.find?_cons_of_pos (decide_eq_true (p := ConfigDefect.vcpuCount.In config) vcpus)
    rw [if_pos vcpus, if_neg fun uncounted => uncounted.1 vcpus, first]
  · by_cases fits : linesPerRank + config.spis < range32
    · rw [if_neg vcpus, if_neg fun uncounted => Nat.not_lt.2 uncounted.2 fits, lineCount,
        if_pos fits]
      simp only [defect?, ConfigDefect.all, List.find?_cons, ConfigDefect.In, vcpus, decide_false,
        Nat.dvd_iff_mod_eq_zero]
      by_cases lines : maxLines < linesPerRank + config.spis
      · simp [lines]
      · by_cases base : config.base.toNat % pageSize = 0
        · by_cases upcall : linesPerRank + config.spis ≤ config.upcallLine <;>
            simp [lines, base, upcall]
        · simp [lines, base]
    · rw [if_neg vcpus, if_pos ⟨vcpus, Nat.not_lt.1 fits⟩, lineCount, if_neg fits]

/-- A result that decides on a configuration: a success for a sound one, a refusal by its first
defect for any other one, and a fault if its lines could not be counted. -/
structure Decides {α : Type} (config : Config) (result : Result α) : Prop where
  accepted : (∃ value, result = .ok value) ↔ config.Sound
  refused : ¬ config.Sound → ¬ config.Uncounted → ∃ defect, defect.In config ∧
    config.defect? = some defect ∧ result = .error (.refused (.invalidConfig defect))
  fault : config.Uncounted → result = .error (.fault .arithmeticOverflow)

theorem decides_validate (config : Config) : config.Decides config.validate := by
  by_cases uncounted : config.Uncounted
  · have outcome : config.validate = .error (.fault .arithmeticOverflow) := by
      rw [validate_eq, if_pos uncounted]
    refine ⟨⟨?_, fun sound => absurd uncounted (not_uncounted sound)⟩,
      fun _ counted => absurd uncounted counted, fun _ => outcome⟩
    rintro ⟨value, done⟩
    rw [outcome] at done
    cases done
  · cases found : config.defect? with
    | none =>
        have outcome : config.validate = .ok () := by rw [validate_eq, if_neg uncounted, found]
        have sound := defect?_eq_none_iff.1 found
        exact ⟨⟨fun _ => sound, fun _ => ⟨(), outcome⟩⟩, fun unsound => absurd sound unsound,
          fun counted => absurd counted uncounted⟩
    | some defect =>
        have outcome : config.validate = .error (.refused (.invalidConfig defect)) := by
          rw [validate_eq, if_neg uncounted, found]
        have present := in_of_defect?_eq_some found
        refine ⟨⟨?_, fun sound => absurd present (sound_iff.1 sound defect)⟩,
          fun _ _ => ⟨defect, present, found, outcome⟩, fun counted => absurd counted uncounted⟩
        rintro ⟨value, done⟩
        rw [outcome] at done
        cases done

/-- What stops at the same failures, and otherwise goes on, decides alike. -/
theorem Decides.of_stops {α β : Type} {result : Result α} {other : Result β}
    (decides : config.Decides result) (stops : ∀ failure, result = .error failure →
      other = .error failure)
    (goes : ∀ value, result = .ok value → ∃ value', other = .ok value') :
    config.Decides other := by
  refine ⟨⟨?_, fun sound => ?_⟩, fun unsound counted => ?_, fun uncounted =>
    stops _ (decides.fault uncounted)⟩
  · rintro ⟨value, done⟩
    cases outcome : result with
    | ok value => exact decides.accepted.1 ⟨value, outcome⟩
    | error failure =>
        rw [stops failure outcome] at done
        cases done
  · obtain ⟨value, done⟩ := decides.accepted.2 sound
    exact goes value done
  · obtain ⟨defect, present, first, outcome⟩ := decides.refused unsound counted
    exact ⟨defect, present, first, stops _ outcome⟩

theorem decides_start {σ : Type} (config : Config) (host : σ) :
    config.Decides (Machine.start config host) := by
  refine (decides_validate config).of_stops (fun failure stopped => ?_) fun value done => ?_
  · rw [Machine.start, stopped]
  · exact ⟨.fresh config host, Machine.start_eq_ok_iff.2 ⟨done, rfl⟩⟩

/-- Validation accepts exactly the sound configurations, and so does the start of a machine. The
hardware domain is sound up to the number of lines of the architecture, and its lines can be
counted for any 32-bit number of them. -/
theorem exact_decision {σ : Type} (config : Config) (host : σ) :
    (config.Decides config.validate ∧ config.Decides (Machine.start config host)) ∧
      ∀ vcpus lines, lines < range32 → ¬ (forHardware vcpus lines).Uncounted ∧
        ((forHardware vcpus lines).Sound ↔ 1 ≤ vcpus ∧ vcpus ≤ maxVcpus ∧ lines ≤ maxLines) :=
  ⟨⟨decides_validate config, decides_start config host⟩, fun vcpus lines small =>
    ⟨not_uncounted_forHardware vcpus small, sound_forHardware_iff vcpus lines⟩⟩

/-- The largest configuration, with its last line for the upcall, and one line more than
that. -/
theorem exact_decision_largest :
    let config : Config := { vcpus := 8, spis := 988, upcallLine := 1019 }
    let host : SteadyHost := { up := [0] }
    (∃ m, Machine.start config host = .ok m) ∧
      ({ config with spis := 989 } : Config).Decides
        (Machine.start { config with spis := 989 } host) ∧
      Machine.start { config with spis := 989 } host =
        .error (.refused (.invalidConfig .lineCount)) ∧
      ¬ (forHardware 8 1021).Sound := by
  intro config host
  have sound : config.Sound := ⟨by decide, by decide, by decide, by decide, by decide⟩
  refine ⟨(exact_decision config host).1.2.accepted.2 sound, (exact_decision _ host).1.2, rfl, ?_⟩
  exact fun sound => absurd
    (((exact_decision config host).2 8 1021 (by decide)).2.1 sound).2.2 (by decide)

/-- Far too many shared lines are not refused: counting them is a fault. -/
theorem uncounted_is_no_refusal :
    let config : Config := { vcpus := 1, spis := 0xffffffff }
    let host : SteadyHost := { up := [0] }
    ¬ config.Sound ∧
      (¬ ∃ defect, config.validate = .error (.refused (.invalidConfig defect))) ∧
      (¬ ∃ defect, Machine.start config host = .error (.refused (.invalidConfig defect))) ∧
      config.validate = .error (.fault .arithmeticOverflow) := by
  intro config host
  have validated : config.validate = .error (.fault .arithmeticOverflow) := rfl
  have started : Machine.start config host = .error (.fault .arithmeticOverflow) := rfl
  refine ⟨fun sound => absurd sound.lines (by decide), ?_, ?_, validated⟩
  · rintro ⟨defect, refused⟩
    rw [validated] at refused
    cases refused
  · rintro ⟨defect, refused⟩
    rw [started] at refused
    cases refused

end Config

end VirtualGic
