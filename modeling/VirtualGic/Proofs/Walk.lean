/-
# Proofs.Walk — a walk visits exactly the set bits of its mask

A walk takes the lowest set bit off a mask by `mask &&& (mask - 1)`. That clears this
bit and no other (`getLsbD_and_sub_one`), so one step of the walk is one step of
filtering the positions below 32 (`filter_eq_lowest_cons`), and the whole walk is that
filter (`toList_eq_filter`). What is left after some steps is the rest of it (`toList_drop`),
so a walk knows how far it has to go, and is over for good when it is over (`counts_down`).
-/
import VirtualGic.Delivery.Masking

namespace VirtualGic

set_option autoImplicit false

namespace SetBits

/-- The first hit of a search, and what is left to filter behind it. -/
theorem filter_eq_cons_of_find? {α : Type} [DecidableEq α] {p : α → Bool} {x : α} :
    ∀ {xs : List α}, xs.Nodup → xs.find? p = some x →
      xs.filter p = x :: xs.filter fun y => p y && y != x
  | [], _, found => by simp at found
  | y :: ys, distinct, found => by
      obtain ⟨fresh, distinct⟩ := List.nodup_cons.1 distinct
      by_cases hit : p y = true
      · have same : y = x := by simpa [List.find?_cons_of_pos, hit] using found
        subst same
        have rest : ys.filter p = ys.filter fun z => p z && z != y := by
          apply List.filter_congr
          intro z member
          have : z ≠ y := fun eq => fresh (eq ▸ member)
          simp [this]
        simp [hit, rest]
      · have ih := filter_eq_cons_of_find? distinct (by simpa [hit] using found)
        simp [hit, ih]

theorem find?_lowest {mask : Word} (nonzero : mask ≠ 0) :
    (List.range 32).find? mask.getLsbD = some (lowest mask) := by
  cases found : (List.range 32).find? mask.getLsbD with
  | some bit => simp [lowest, found]
  | none =>
      have clear : mask = 0 := by
        apply BitVec.eq_of_getLsbD_eq
        intro bit inside
        simpa using List.find?_eq_none.1 found bit (List.mem_range.2 inside)
      exact absurd clear nonzero

theorem getLsbD_lowest {mask : Word} (nonzero : mask ≠ 0) : mask.getLsbD (lowest mask) = true :=
  List.find?_some (find?_lowest nonzero)

theorem getLsbD_of_lt_lowest {mask : Word} {bit : Nat} (below : bit < lowest mask) :
    mask.getLsbD bit = false := by
  by_cases inside : bit < 32
  · by_cases zero : mask = 0
    · simp [zero]
    · have ⟨_, before, after, split, clear⟩ :=
        List.find?_eq_some_iff_append.1 (find?_lowest zero)
      have member : bit ∈ before := by
        have ascend : (List.range 32).Pairwise (· < ·) := List.pairwise_lt_range
        have here : bit ∈ before ++ lowest mask :: after := split ▸ List.mem_range.2 inside
        rw [split, List.pairwise_append] at ascend
        rcases List.mem_append.1 here with left | right
        · exact left
        · rcases List.mem_cons.1 right with same | later
          · omega
          · have := (List.pairwise_cons.1 ascend.2.1).1 bit later
            omega
      simpa using clear bit member
  · exact BitVec.getLsbD_of_ge _ _ (by omega)

/-- A number by its lowest set bit: what stands above it, and this bit. -/
theorem toNat_eq_lowest {mask : Word} (nonzero : mask ≠ 0) :
    mask.toNat = (mask.toNat >>> (lowest mask + 1)) <<< (lowest mask + 1) +
      1 <<< lowest mask := by
  rw [Nat.shiftLeft_eq, Nat.shiftRight_eq_div_pow, Nat.one_shiftLeft, Nat.mul_comm]
  have low : mask.toNat % 2 ^ (lowest mask + 1) = 2 ^ lowest mask := by
    apply Nat.eq_of_testBit_eq
    intro bit
    rw [Nat.testBit_mod_two_pow, Nat.testBit_two_pow, BitVec.testBit_toNat]
    rcases Nat.lt_trichotomy bit (lowest mask) with lt | eq | gt
    · rw [getLsbD_of_lt_lowest lt]
      have : lowest mask ≠ bit := by omega
      simp [this]
    · subst eq
      simp [getLsbD_lowest nonzero]
    · have out : ¬ bit < lowest mask + 1 := by omega
      have ne : lowest mask ≠ bit := by omega
      simp [out, ne]
  have := Nat.div_add_mod mask.toNat (2 ^ (lowest mask + 1))
  rw [low] at this
  exact this.symm

/-- Taking one off and keeping what both have clears the lowest set bit alone. -/
theorem getLsbD_and_sub_one {mask : Word} (nonzero : mask ≠ 0) (bit : Nat) :
    (mask &&& (mask - 1)).getLsbD bit = (mask.getLsbD bit && bit != lowest mask) := by
  have whole := toNat_eq_lowest nonzero
  rw [Nat.shiftLeft_eq, Nat.one_shiftLeft, Nat.mul_comm] at whole
  generalize lowest mask = low at whole ⊢
  generalize mask.toNat >>> (low + 1) = high at whole
  have positive : 0 < 2 ^ low := Nat.two_pow_pos low
  have doubled : 2 ^ (low + 1) = 2 * 2 ^ low := by rw [Nat.pow_succ, Nat.mul_comm]
  have less : (mask - 1).toNat = 2 ^ (low + 1) * high + (2 ^ low - 1) := by
    have one : (1 : Word).toNat = 1 := rfl
    have some : (1 : Word) ≤ mask := by
      rw [BitVec.le_def, one]
      omega
    rw [BitVec.toNat_sub_of_le some, whole, one]
    omega
  rw [BitVec.getLsbD_and, ← BitVec.testBit_toNat, ← BitVec.testBit_toNat, less, whole,
    Nat.testBit_two_pow_mul_add high (by omega), Nat.testBit_two_pow_mul_add high (by omega),
    Nat.testBit_two_pow, Nat.testBit_two_pow_sub_one]
  by_cases below : bit < low + 1
  · by_cases here : bit = low
    · subst here
      simp
    · have : low ≠ bit := fun same => here same.symm
      simp [below, this]
  · have : bit ≠ low := by omega
    simp [below, this]

theorem filter_eq_lowest_cons {mask : Word} (nonzero : mask ≠ 0) :
    (List.range 32).filter mask.getLsbD =
      lowest mask :: (List.range 32).filter (mask &&& (mask - 1)).getLsbD := by
  rw [filter_eq_cons_of_find? List.nodup_range (find?_lowest nonzero)]
  congr 2
  funext bit
  exact (getLsbD_and_sub_one nonzero bit).symm

theorem take_length_filter (count : Nat) (bits : SetBits)
    (size : ((List.range 32).filter bits.mask.getLsbD).length = count) :
    bits.take count = (List.range 32).filter bits.mask.getLsbD := by
  induction count generalizing bits with
  | zero => rw [take, List.length_eq_zero_iff.1 size]
  | succ count ih =>
      have nonzero : bits.mask ≠ 0 := by
        intro zero
        have none : (List.range 32).filter bits.mask.getLsbD = [] :=
          List.filter_eq_nil_iff.2 fun bit _ => by simp [zero]
        rw [none] at size
        cases size
      rw [filter_eq_lowest_cons nonzero, List.length_cons, Nat.add_right_cancel_iff] at size
      rw [take, next?, if_neg nonzero, filter_eq_lowest_cons nonzero]
      exact congrArg _ (ih ⟨bits.mask &&& (bits.mask - 1)⟩ size)

/-- A walk visits the set bits, in ascending order. -/
theorem toList_eq_filter (bits : SetBits) :
    bits.toList = (List.range 32).filter bits.mask.getLsbD :=
  take_length_filter bits.size bits (by rw [size, List.countP_eq_length_filter])

theorem mem_toList_iff {bits : SetBits} {bit : Nat} :
    bit ∈ bits.toList ↔ bits.mask.getLsbD bit = true := by
  rw [toList_eq_filter, List.mem_filter, List.mem_range]
  constructor
  · exact fun both => both.2
  · exact fun set => ⟨BitVec.lt_of_getLsbD set, set⟩

/-! ## What is left of a walk -/

theorem length_toList (bits : SetBits) : bits.toList.length = bits.size := by
  rw [toList_eq_filter, size, List.countP_eq_length_filter]

theorem ascending_toList (bits : SetBits) : bits.toList.Pairwise (· < ·) := by
  rw [toList_eq_filter]
  exact List.pairwise_lt_range.filter _

/-- One step of a walk takes its first position off. -/
theorem toList_of_next? {bits rest : SetBits} {bit : Nat}
    (more : bits.next? = some (bit, rest)) : bits.toList = bit :: rest.toList := by
  unfold next? at more
  split at more
  · cases more
  · rename_i nonzero
    obtain ⟨rfl, rfl⟩ := Prod.mk.inj (Option.some.inj more)
    rw [toList_eq_filter, toList_eq_filter, filter_eq_lowest_cons nonzero]

theorem toList_of_next?_none {bits : SetBits} (ended : bits.next? = none) : bits.toList = [] := by
  rw [toList_eq_filter, (next?_eq_none_iff bits).1 ended]
  exact List.filter_eq_nil_iff.2 fun bit _ => by simp

theorem map_fst_next? (bits : SetBits) : bits.next?.map Prod.fst = bits.toList.head? := by
  cases asked : bits.next? with
  | none => rw [toList_of_next?_none asked]; rfl
  | some found => rw [toList_of_next? asked]; rfl

theorem toList_drop (count : Nat) (bits : SetBits) :
    (bits.drop count).toList = bits.toList.drop count := by
  induction count generalizing bits with
  | zero => rfl
  | succ count ih =>
      unfold drop
      split
      · rename_i ended
        rw [toList_of_next?_none ended, List.drop_nil]
      · rename_i bit rest more
        rw [ih rest, toList_of_next? more, List.drop_succ_cons]

theorem cpopNatRec_eq_countP (mask : Word) (count sum : Nat) :
    mask.cpopNatRec count sum = (List.range count).countP mask.getLsbD + sum := by
  induction count generalizing sum with
  | zero => rw [BitVec.cpopNatRec_zero_self, List.range_zero, List.countP_nil, Nat.zero_add]
  | succ count ih =>
      rw [BitVec.cpopNatRec_succ, ih, List.range_succ, List.countP_append, List.countP_singleton]
      cases mask.getLsbD count <;> simp [Nat.add_assoc, Nat.add_comm sum]

theorem size_eq_cpop (bits : SetBits) : bits.size = bits.mask.cpop.toNat := by
  rw [BitVec.toNat_cpop, cpopNatRec_eq_countP, Nat.add_zero, size]

/-- A walk visits the set bits in ascending order, one with each step, and ends after as many
steps as there are. It always knows how many are to come. -/
theorem counts_down (mask : Word) :
    let bits : SetBits := ⟨mask⟩
    bits.toList.Pairwise (· < ·) ∧
      (∀ bit, bit ∈ bits.toList ↔ mask.getLsbD bit = true) ∧
      bits.toList.length = mask.cpop.toNat ∧
      ∀ count,
        (bits.drop count).next?.map Prod.fst = bits.toList[count]? ∧
          (bits.drop count).size = (bits.toList.drop count).length ∧
          ((bits.drop count).next? = none ↔ mask.cpop.toNat ≤ count) := by
  intro bits
  have long : bits.toList.length = mask.cpop.toNat :=
    bits.length_toList.trans bits.size_eq_cpop
  refine ⟨bits.ascending_toList, fun bit => mem_toList_iff, long, fun count => ?_⟩
  have answer : (bits.drop count).next?.map Prod.fst = bits.toList[count]? := by
    rw [map_fst_next?, toList_drop, List.head?_drop]
  refine ⟨answer, ?_, ?_⟩
  · rw [← length_toList, toList_drop]
  · rw [← Option.map_eq_none_iff, answer, List.getElem?_eq_none_iff, long]

example : (SetBits.mk 0x80000005).toList = [0, 2, 31] := by decide

end SetBits

/-- The lines of a smaller mask are among those of a larger one. -/
theorem maskedLines_mono {rank : Nat} {small large : Word}
    (within : ∀ bit, small.getLsbD bit = true → large.getLsbD bit = true) {lines : List Nat}
    (fits : maskedLines rank small = .ok lines) (nonzero : small ≠ 0) :
    ∃ more, maskedLines rank large = .ok more ∧ ∀ line ∈ lines, line ∈ more := by
  have larger : large ≠ 0 := by
    intro zero
    apply nonzero
    apply BitVec.eq_of_getLsbD_eq
    intro bit _
    cases set : small.getLsbD bit with
    | false => simp
    | true =>
        have := within bit set
        rw [zero] at this
        simp at this
  unfold maskedLines at fits ⊢
  split at fits
  · cases fits
  · rename_i room
    have room' : ¬ (large ≠ 0 ∧ range64 ≤ rank * linesPerRank) :=
      fun both => room ⟨nonzero, both.2⟩
    injection fits with same
    subst same
    refine ⟨_, if_neg room', ?_⟩
    intro line member
    obtain ⟨bit, visited, rfl⟩ := List.mem_map.1 member
    exact List.mem_map.2 ⟨bit,
      SetBits.mem_toList_iff.2 (within bit (SetBits.mem_toList_iff.1 visited)), rfl⟩

end VirtualGic
