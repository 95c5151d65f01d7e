/-
# Proofs.Access — what becomes of a trapped access

A trapped access is refused, because its VCPU has no state, its offset lies in no group or
its width is not accepted, and then nothing happens but notes and, for a refused width, the
call that ends the domain. Or it reaches the register of its group (`write_cases`,
`read_of_accepts`). Later proofs start from these two cases and open neither look-up again.
-/
import VirtualGic.Proofs.Perform

namespace VirtualGic

set_option autoImplicit false

/-- The access that a group sees at `offset`. -/
def Group.access (group : Group) (offset : Nat) (width : Width) (signed : Bool) : Access :=
  ⟨offset, offset - group.first, width, signed⟩

namespace Machine

variable {σ : Type} [Host σ]

theorem decode_of_accepts {m : Machine σ} {v offset : Nat} {width : Width} {group : Group}
    (accepts : group.Accepts offset width) : m.decode v offset width = (.ok group, m) := by
  unfold decode
  rw [accepts.1]
  simp only [accepts.2, if_true]

/-- A write that is accepted reaches the register of its group. -/
theorem write_of_accepts {m : Machine σ} {v offset : Nat} {width : Width} {value : Word}
    {group : Group} (present : (m.dist.vcpu? v).isSome = true)
    (accepts : group.Accepts offset width) :
    m.write v offset width value =
      (m.note (.registerWritten v group.name (offset - group.first) value)).writeRegister v
        (group.access offset width false) value group.register := by
  obtain ⟨vcpu, there⟩ := Option.isSome_iff_exists.1 present
  unfold write
  rw [Distributor.requireVcpu_eq_ok_iff.2 there, decode_of_accepts accepts]
  rfl

/-- A write is refused before or by the decoder, or it reaches the register of its group. -/
theorem write_cases (m : Machine σ) (v offset : Nat) (width : Width) (value : Word) :
    (∃ failure, (m.write v offset width value).1 = .error failure ∧
        ((m.write v offset width value).2 = m ∨
          (m.write v offset width value).2 = (m.decode v offset width).2)) ∨
      (m.dist.vcpu? v).isSome = true ∧ ∃ group : Group, group.Accepts offset width ∧
        m.write v offset width value =
          (m.note (.registerWritten v group.name (offset - group.first) value)).writeRegister v
            (group.access offset width false) value group.register := by
  cases required : m.dist.requireVcpu v with
  | error error =>
      left
      unfold write
      rw [required]
      exact ⟨_, rfl, .inl rfl⟩
  | ok vcpu =>
      have present := Distributor.present_of_requireVcpu required
      cases decoded : m.decode v offset width with
      | mk answer after =>
          cases answer with
          | error error =>
              left
              unfold write
              rw [required]
              simp only [decoded]
              exact ⟨_, rfl, .inr trivial⟩
          | ok group =>
              have accepts := (accepts_of_decode decoded).1
              exact .inr ⟨present, group, accepts, write_of_accepts present accepts⟩

/-- A read that is accepted answers as the register of its group does. -/
theorem read_of_accepts {m : Machine σ} {v offset : Nat} {width : Width} {signed : Bool}
    {group : Group} (present : (m.dist.vcpu? v).isSome = true)
    (accepts : group.Accepts offset width) :
    (m.read v offset width signed).1 =
      m.dist.readRegister v (group.access offset width signed) group.register := by
  obtain ⟨vcpu, there⟩ := Option.isSome_iff_exists.1 present
  unfold read
  rw [Distributor.requireVcpu_eq_ok_iff.2 there, decode_of_accepts accepts]
  simp only [Group.access]
  split <;> (rename_i answered; exact answered.symm)

/-- A read that answers has reached a register. -/
theorem accepts_of_read {m : Machine σ} {v offset : Nat} {width : Width} {signed : Bool}
    {value : Word} (answered : (m.read v offset width signed).1 = .ok value) :
    (m.dist.vcpu? v).isSome = true ∧ ∃ group : Group, group.Accepts offset width := by
  unfold read at answered
  split at answered
  · cases answered
  · rename_i vcpu required
    refine ⟨Distributor.present_of_requireVcpu required, ?_⟩
    split at answered
    · cases answered
    · rename_i group after decoded
      exact ⟨group, (accepts_of_decode decoded).1⟩

end Machine

/-! ## What a register answers to a write -/

theorem wordIndex_lt (bank : Bank) (position : Nat) :
    wordIndex bank.words position < bank.words :=
  Nat.mod_lt _ (by cases bank <;> decide)

/-- The registers that leave writes to the trap layer. -/
def Register.unwritable : List Register :=
  [.setPending, .clearPending, .clearSoftwarePending, .setSoftwarePending]

namespace Machine

variable {σ : Type} {m : Machine σ} {v : Nat} {access : Access}

theorem writeBank_ok (bank : Bank) (f : Word → Word) :
    (m.writeBank v access bank f).1 = .ok () := by
  unfold writeBank
  simp only
  split
  · rfl
  · rename_i rank _
    obtain ⟨old, held⟩ := Option.isSome_iff_exists.1
      ((rank.word?_isSome_iff bank _).2 (wordIndex_lt bank access.position))
    rw [held]

variable [Host σ]

theorem maskedLines_ok {rank : Nat} (mask : Word) (low : rank < 32) :
    ∃ lines, maskedLines rank mask = .ok lines := by
  have fits : ¬ (mask ≠ 0 ∧ range64 ≤ rank * linesPerRank) := by
    simp only [range64, linesPerRank]
    omega
  exact ⟨_, if_neg fits⟩

theorem enableMask_ok {mask : Word} {rank : Nat} (low : rank < 32) :
    (m.enableMask v mask rank).1 = .ok () := by
  obtain ⟨lines, fits⟩ := maskedLines_ok mask low
  rw [enableMask, fits]

theorem disableMask_ok {changes : Nat → List (Change σ)} {mask : Word} {rank : Nat}
    (low : rank < 32) : (m.disableMask changes v mask rank).1 = .ok () := by
  obtain ⟨lines, fits⟩ := maskedLines_ok mask low
  rw [disableMask, fits]

theorem writeSetEnable_ok (value : Word)
    (low : rankIndex Bank.enable.words access.position < 32) :
    (m.writeSetEnable v access value).1 = .ok () := by
  unfold writeSetEnable
  simp only
  split
  · rfl
  · split
    · rfl
    · exact enableMask_ok low

theorem writeClearEnable_ok (value : Word)
    (low : rankIndex Bank.enable.words access.position < 32) :
    (m.writeClearEnable v access value).1 = .ok () := by
  unfold writeClearEnable
  simp only
  split
  · rfl
  · split
    · rfl
    · exact disableMask_ok low

/-- A write is accepted by every register but a few, which leave it to the trap layer. The
software interrupt register counts its targets first. -/
theorem writeRegister_answer {value : Word} {register : Register}
    (low : register = .setEnable ∨ register = .clearEnable →
      rankIndex Bank.enable.words access.position < 32)
    (other : register ≠ .softwareInterrupt) :
    (m.writeRegister v access value register).1 =
      if register ∈ Register.unwritable then .error (.refused (.unhandled access.offset))
      else .ok () := by
  cases register with
  | control =>
      unfold writeRegister writeControl
      simp only
      split <;> rfl
  | setEnable => exact writeSetEnable_ok value (low (.inl rfl))
  | clearEnable => exact writeClearEnable_ok value (low (.inr rfl))
  | clearActive => exact writeBank_ok .active _
  | priority => exact writeBank_ok .priority _
  | targets | trigger =>
      unfold writeRegister
      simp only
      split
      · rfl
      · exact writeBank_ok _ _
  | softwareInterrupt => exact absurd rfl other
  | _ => rfl

end Machine

end VirtualGic
