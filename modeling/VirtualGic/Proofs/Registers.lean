/-
# Proofs.Registers — ranks and cells

`Reflects` ties a distributor to a register file: they have the same VCPUs and the same
control bit, and every rank has in its registers what the file has in the cells of the rank
(`Shows`). Registers are words and cells may be bytes, so the comparison is by words
(`RegisterFile.word`), and a word is its four bytes (`Word.eq_lanes`).

A write changes one word of one bank, and cells that amount to it (`Stores`);
`Reflects.stores` is the one lemma about all of them. The rest is the coming and going of
VCPUs.
-/
import VirtualGic.Proofs.RegisterFile
import VirtualGic.Proofs.Shape

namespace VirtualGic

set_option autoImplicit false

/-! ## Words and their bytes -/

namespace Word

theorem lane_congr (word : Word) {i j : Nat} (same : i % 4 = j % 4) :
    lane word i = lane word j := by
  simp only [lane, laneShift, same]

/-- A word is its four bytes. -/
theorem eq_lanes (word : Word) :
    lane word 3 ++ lane word 2 ++ lane word 1 ++ lane word 0 = word := by
  apply BitVec.eq_of_getLsbD_eq
  intro bit inside
  simp only [BitVec.getLsbD_append, getLsbD_lane, laneShift]
  by_cases first : bit < 8
  · simp [first]
  · by_cases second : bit - 8 < 8
    · rw [if_neg first, if_pos second, show 8 * (1 % 4) + (bit - 8) = bit by omega]
      simp [second]
    · by_cases third : bit - 8 - 8 < 8
      · rw [if_neg first, if_neg second, if_pos third,
          show 8 * (2 % 4) + (bit - 8 - 8) = bit by omega]
        simp [third]
      · rw [if_neg first, if_neg second, if_neg third,
          show 8 * (3 % 4) + (bit - 8 - 8 - 8) = bit by omega]
        simp only [Bool.and_eq_right_iff_imp, decide_eq_true_eq]
        omega

/-- Words with the same bytes are the same. -/
theorem eq_of_lane {a b : Word} (same : ∀ i, lane a i = lane b i) : a = b := by
  rw [← eq_lanes a, ← eq_lanes b, same, same, same, same]

/-- The bytes of a word that is put together from four. -/
theorem lane_append (bytes : Nat → Byte) (i : Nat) :
    lane (bytes 3 ++ bytes 2 ++ bytes 1 ++ bytes 0) i = bytes (i % 4) := by
  apply BitVec.eq_of_getLsbD_eq
  intro bit inside
  have cases : i % 4 = 0 ∨ i % 4 = 1 ∨ i % 4 = 2 ∨ i % 4 = 3 := by omega
  rw [getLsbD_lane]
  simp only [BitVec.getLsbD_append, laneShift, inside, decide_true, Bool.true_and]
  rcases cases with lane | lane | lane | lane <;> rw [lane] <;> grind

end Word

theorem Rank.word?_setWord (rank : Rank) (bank other : Bank) (word i : Nat) (value : Word) :
    (rank.setWord bank word value).word? other i =
      if bank = other ∧ i = word ∧ word < bank.words then some value else rank.word? other i := by
  by_cases same : bank = other
  · subst same
    cases bank <;> simp only [setWord, word?, Bank.words, true_and] <;> grind
  · rw [if_neg (fun all => same all.1)]
    cases bank <;> cases other <;>
      first
        | exact absurd rfl same
        | rfl
        | (simp only [setWord]; split <;> rfl)

/-! ## Cells and words -/

namespace Cells

/-- The byte of a line is a byte of its word. -/
theorem lane_wordOf (cells : Cells Byte) (owner : Option Nat) (line : Nat) :
    Word.lane (cells.wordOf owner (line / 4)) line = cells owner line := by
  have lane := Word.lane_append (fun k => cells owner (4 * (line / 4) + k)) line
  rw [Nat.div_add_mod] at lane
  exact lane

theorem lane_wordOf_add (cells : Cells Byte) (owner : Option Nat) (word i : Nat) :
    Word.lane (cells.wordOf owner word) i = cells owner (4 * word + i % 4) :=
  Word.lane_append (fun k => cells owner (4 * word + k)) i

/-- Some of the byte writes that make up the write of a word. -/
theorem foldl_putByte (cells : Cells Byte) (v position : Nat) (value : Word) (owner : Option Nat)
    (line count : Nat) (part : count ≤ 4) :
    (List.range count).foldl
        (fun cells lane => cells.putByte v (4 * (position / 4) + lane) (Word.lane value lane))
        cells owner line =
      if owner = bankOf v (rankOfLine position) ∧ line / 4 = position / 4 ∧ line % 4 < count then
        Word.lane value line
      else cells owner line := by
  induction count with
  | zero => simp
  | succ count ih =>
      have rank : rankOfLine (4 * (position / 4) + count) = rankOfLine position := by
        simp only [rankOfLine, linesPerRank]
        omega
      rw [List.range_succ, List.foldl_append, List.foldl_cons, List.foldl_nil, putByte, put, rank,
        ih (by omega)]
      by_cases own : owner = bankOf v (rankOfLine position)
      · by_cases here : line = 4 * (position / 4) + count
        · rw [if_pos ⟨own, here⟩, if_pos ⟨own, by omega, by omega⟩]
          exact Word.lane_congr value (by omega)
        · rw [if_neg (fun both => here both.2)]
          by_cases before : line / 4 = position / 4 ∧ line % 4 < count
          · rw [if_pos ⟨own, before⟩, if_pos ⟨own, before.1, by omega⟩]
          · rw [if_neg (fun all => before all.2), if_neg (fun all => before ⟨all.2.1, by omega⟩)]
      · simp only [own, false_and, if_false]

/-- A write changes one word, as the access says. -/
theorem wordOf_store (cells : Cells Byte) (v : Nat) {access : Access}
    (width : access.width = .byte ∨ access.width = .word) (value : Word) (owner : Option Nat)
    (word : Nat) :
    (cells.store v access.position access.width value).wordOf owner word =
      if owner = bankOf v (rankOfLine access.position) ∧ word = access.position / 4 then
        access.merge value (cells.wordOf owner word)
      else cells.wordOf owner word := by
  apply Word.eq_of_lane
  intro i
  rw [lane_wordOf_add]
  generalize line : 4 * word + i % 4 = l
  have held : Word.lane (cells.wordOf owner word) i = cells owner l := by
    rw [lane_wordOf_add, line]
  by_cases here : owner = bankOf v (rankOfLine access.position) ∧ word = access.position / 4
  · obtain ⟨own, here⟩ := here
    rw [if_pos ⟨own, here⟩]
    rcases width with byte | whole
    · simp only [store, Access.merge, byte, putByte, put, Word.writeLane]
      by_cases same : l = access.position
      · rw [if_pos ⟨own, same⟩, Word.lane_congr _ (show i % 4 = access.position % 4 by omega),
          Word.lane_setLane_self]
      · rw [if_neg (fun both => same both.2), Word.lane_setLane_ne _ _ (by omega), held]
    · simp only [store, Access.merge, whole]
      rw [foldl_putByte _ _ _ _ _ _ _ (Nat.le_refl 4), if_pos ⟨own, by omega, by omega⟩]
      exact Word.lane_congr value (by omega)
  · rw [if_neg here, held]
    rcases width with byte | whole
    · simp only [store, byte, putByte, put]
      exact if_neg fun both => here ⟨both.1, by omega⟩
    · simp only [store, whole]
      rw [foldl_putByte _ _ _ _ _ _ _ (Nat.le_refl 4)]
      exact if_neg fun all => here ⟨all.1, by omega⟩

/-- A read gives what the access takes from the word. -/
theorem load_eq (cells : Cells Byte) (v : Nat) {access : Access}
    (width : access.width = .byte ∨ access.width = .word) :
    cells.load v access.position access.width access.signed =
      access.extract
        (cells.wordOf (bankOf v (rankOfLine access.position)) (access.position / 4)) := by
  rcases width with byte | whole
  · simp only [load, Access.extract, byte, Word.readLane, lane_wordOf]
  · simp only [load, Access.extract, whole]

end Cells

/-! ## Ranks and files -/

namespace RegisterFile

/-- What the file has for a word of a bank. -/
def word (file : RegisterFile) (owner : Option Nat) (index : Nat) : Bank → Nat → Word
  | .enable, _ => file.enable owner index
  | .pending, _ | .active, _ | .senders, _ => 0
  | .priority, i => file.priority.wordOf owner (8 * index + i)
  | .targets, i => file.targets.wordOf owner (8 * index + i)
  | .trigger, i => file.trigger owner (2 * index + i)

/-- Whether a rank has in its registers what the file has in the cells of the rank. -/
def Shows (file : RegisterFile) (owner : Option Nat) (index : Nat) (rank : Rank) : Prop :=
  ∀ bank i, i < bank.words → rank.word? bank i = some (file.word owner index bank i)

/-- A distributor has in its registers what the file has in its cells. -/
structure Reflects (file : RegisterFile) (d : Distributor) : Prop where
  /-- They have the same VCPUs. -/
  up : ∀ v, (d.vcpu? v).isSome = file.up v
  /-- They have the same control bit. -/
  control : d.enabled = file.control
  /-- Every rank that a VCPU sees has what the file has. -/
  ranks : ∀ v index rank, d.rank? v index = some rank → file.Shows (bankOf v index) index rank

/-- A change of cells that amounts to one of a word, at `position` in the registers of a
bank as VCPU `v` sees them. -/
structure Stores (file file' : RegisterFile) (v : Nat) (bank : Bank) (position : Nat)
    (f : Word → Word) : Prop where
  up : file'.up = file.up
  control : file'.control = file.control
  word : ∀ owner index other i, i < other.words →
    file'.word owner index other i =
      if (owner = bankOf v (rankIndex bank.words position) ∧
          index = rankIndex bank.words position) ∧
          other = bank ∧ i = wordIndex bank.words position then
        f (file.word owner index other i)
      else file.word owner index other i

theorem bankOf_eq_iff {v w index other : Nat} :
    bankOf w other = bankOf v index ∧ other = index ↔ other = index ∧ (index = 0 → v = w) := by
  unfold bankOf
  constructor
  · rintro ⟨own, rfl⟩
    refine ⟨rfl, ?_⟩
    rintro rfl
    simpa using own.symm
  · rintro ⟨rfl, own⟩
    by_cases zero : other = 0
    · simp [zero, own zero]
    · simp [zero]

theorem rank?_of_bankOf {d : Distributor} {v w index : Nat} (own : index = 0 → v = w) :
    d.rank? w index = d.rank? v index := by
  cases index with
  | zero => rw [own rfl]
  | succ index => rfl

section Changes

variable {file file' : RegisterFile} {d d' : Distributor}

/-- A word that is stored in a rank and in the file. -/
theorem Reflects.stores (before : Reflects file d) {v : Nat} {bank : Bank} {position : Nat}
    {f : Word → Word} (stores : file.Stores file' v bank position f) {g : Rank → Rank}
    (present : ∀ w, (d'.vcpu? w).isSome = (d.vcpu? w).isSome) (enabled : d'.enabled = d.enabled)
    (ranks : ∀ w other, d'.rank? w other =
      if other = rankIndex bank.words position ∧ (rankIndex bank.words position = 0 → v = w) then
        (d.rank? w other).map g
      else d.rank? w other)
    (changed : ∀ {rank}, d.rank? v (rankIndex bank.words position) = some rank →
      ∀ other i, (g rank).word? other i =
        if other = bank ∧ i = wordIndex bank.words position then (rank.word? other i).map f
        else rank.word? other i) :
    Reflects file' d' := by
  refine ⟨fun w => ?_, ?_, ?_⟩
  · rw [present, before.up, stores.up]
  · rw [enabled, before.control, stores.control]
  · intro w other rank' found bank' i inside
    rw [ranks] at found
    rw [stores.word _ _ _ _ inside]
    by_cases here : other = rankIndex bank.words position ∧
        (rankIndex bank.words position = 0 → v = w)
    · rw [if_pos here] at found
      obtain ⟨rank, known, rfl⟩ := Option.map_eq_some_iff.1 found
      have same := bankOf_eq_iff.2 here
      have shown := before.ranks w other rank known bank' i inside
      obtain ⟨rfl, own⟩ := here
      rw [changed ((rank?_of_bankOf own).symm.trans known), shown]
      by_cases this : bank' = bank ∧ i = wordIndex bank.words position
      · rw [if_pos this, if_pos ⟨same, this⟩]
        rfl
      · rw [if_neg this, if_neg (fun all => this all.2)]
    · rw [if_neg here] at found
      rw [if_neg (fun all => here (bankOf_eq_iff.1 all.1))]
      exact before.ranks w other rank' found bank' i inside

/-- Cells of a rank that does not exist show nowhere. -/
theorem Reflects.absent (before : Reflects file d) {v : Nat} {bank : Bank} {position : Nat}
    {f : Word → Word} (stores : file.Stores file' v bank position f)
    (none : d.rank? v (rankIndex bank.words position) = none) : Reflects file' d := by
  refine before.stores stores (g := id) (fun _ => rfl) rfl (fun w other => ?_) ?_
  · simp
  · intro rank found
    rw [none] at found
    cases found

theorem Reflects.updateRank (before : Reflects file d) {v : Nat} {bank : Bank} {position : Nat}
    {f : Word → Word} (stores : file.Stores file' v bank position f) {g : Rank → Rank}
    (changed : ∀ {rank}, d.rank? v (rankIndex bank.words position) = some rank →
      ∀ other i, (g rank).word? other i =
        if other = bank ∧ i = wordIndex bank.words position then (rank.word? other i).map f
        else rank.word? other i) :
    Reflects file' (d.updateRank v (rankIndex bank.words position) g) := by
  refine before.stores stores (fun w => ?_) ?_ (Distributor.rank?_updateRank d v _ g) changed
  · rw [← Distributor.inflight?_isSome, ← Distributor.inflight?_isSome,
      Distributor.inflight?_updateRank]
  · generalize rankIndex bank.words position = index
    cases index <;> rfl

end Changes

/-! ## Writes of the file -/

section Writes

variable (file : RegisterFile) (v : Nat)

theorem stores_changeEnable (position : Nat) (f : Word → Word) :
    file.Stores (file.changeEnable v (position / 4) f) v .enable position f := by
  refine ⟨rfl, rfl, fun owner index other i inside => ?_⟩
  simp only [rankIndex, wordIndex, Bank.words, Nat.div_one, Nat.mod_one] at inside ⊢
  cases other with
  | enable =>
      simp only [Nat.lt_one_iff] at inside
      simp only [word, changeEnable, Cells.put, inside, and_true]
      split
      · rename_i here
        rw [here.1, here.2]
      · rfl
  | _ => simp [word, changeEnable]

theorem stores_active (position : Nat) (x : Word) :
    file.Stores file v .active position (· &&& x) := by
  refine ⟨rfl, rfl, fun owner index other i _ => ?_⟩
  split
  · rename_i here
    rw [here.2.1]
    exact (BitVec.zero_and).symm
  · rfl

/-- A word by its number is one by its rank and its place there. -/
theorem number_iff {bits position index i : Nat} (inside : i < bits) :
    bits * index + i = position / 4 ↔
      index = rankIndex bits position ∧ i = wordIndex bits position := by
  rw [Nat.add_comm, eq_comm (a := index), eq_comm (a := i)]
  exact ⟨fun same => (Nat.div_mod_unique (Nat.zero_lt_of_lt inside)).2 ⟨same, inside⟩,
    fun both => ((Nat.div_mod_unique (Nat.zero_lt_of_lt inside)).1 both).1⟩

theorem number_eq (bits position : Nat) :
    bits * rankIndex bits position + wordIndex bits position = position / 4 :=
  Nat.div_add_mod (position / 4) bits

theorem rankOfLine_eq (position : Nat) : rankOfLine position = rankIndex 8 position := by
  simp only [rankOfLine, rankIndex, linesPerRank]
  omega

theorem stores_priority {access : Access} (width : access.width = .byte ∨ access.width = .word)
    (value : Word) :
    file.Stores { file with priority := file.priority.store v access.position access.width value }
      v .priority access.position (access.merge value) := by
  refine ⟨rfl, rfl, fun owner index other i inside => ?_⟩
  cases other with
  | priority =>
      have small : i < 8 := inside
      simp only [word, Cells.wordOf_store _ _ width, number_iff small, rankOfLine_eq, Bank.words,
        true_and, and_assoc]
  | _ => simp [word]

theorem stores_targets {access : Access} (width : access.width = .byte ∨ access.width = .word)
    (value : Word) :
    file.Stores { file with targets := file.targets.store v access.position access.width value }
      v .targets access.position (access.merge value) := by
  refine ⟨rfl, rfl, fun owner index other i inside => ?_⟩
  cases other with
  | targets =>
      have small : i < 8 := inside
      simp only [word, Cells.wordOf_store _ _ width, number_iff small, rankOfLine_eq, Bank.words,
        true_and, and_assoc]
  | _ => simp [word]

theorem stores_trigger (position : Nat) (value : Word) :
    file.Stores
      { file with
        trigger := file.trigger.put (bankOf v (position / 4 / 2)) (position / 4) value }
      v .trigger position fun _ => value := by
  refine ⟨rfl, rfl, fun owner index other i inside => ?_⟩
  cases other with
  | trigger =>
      have small : i < 2 := inside
      simp only [word, Cells.put, number_iff small, Bank.words, true_and, and_assoc]
      rfl
  | _ => simp [word]

end Writes

/-! ## The coming and going of VCPUs -/

theorem reflects_create (config : Config) : Reflects {} (Distributor.create config) := by
  refine ⟨fun v => by rw [Distributor.vcpu?_create]; rfl, rfl, ?_⟩
  intro v index rank found
  have zero : rank = Rank.zero := by
    cases index with
    | zero => simp [Distributor.rank?, Distributor.vcpu?_create] at found
    | succ index =>
        simp only [Distributor.rank?, Distributor.create, Array.getElem?_replicate] at found
        split at found
        · exact (Option.some.inj found).symm
        · cases found
  intro bank i inside
  subst zero
  cases bank <;> simp only [Bank.words] at inside <;>
    simp [Rank.word?, Rank.zero, word, Cells.wordOf, inside] <;> omega

section Vcpus

variable {file : RegisterFile} {d : Distributor} {v : Nat}

theorem Reflects.raise (before : Reflects file d) (inside : v < d.vcpus.size) {capacity : Nat}
    {vcpu : Vcpu} (created : Vcpu.create v capacity = .ok vcpu) :
    Reflects (file.raise v) (d.setVcpu v (some vcpu)) := by
  have registers : vcpu.rank = Vcpu.privateRank v := by
    unfold Vcpu.create at created
    split at created
    · rw [← Except.ok.inj created]
    · cases created
  refine ⟨fun w => ?_, before.control, ?_⟩
  · rw [Distributor.vcpu?_setVcpu]
    by_cases same : v = w
    · simp [same ▸ inside, same, RegisterFile.raise]
    · have other : ¬ w = v := fun same' => same same'.symm
      simp [same, other, before.up, RegisterFile.raise]
  · intro w index rank found bank i small
    cases index with
    | succ index =>
        have shown := before.ranks w (index + 1) rank found bank i small
        rw [shown]
        cases bank <;> rfl
    | zero =>
        rw [Distributor.rank?, Distributor.vcpu?_setVcpu] at found
        by_cases same : v = w
        · subst same
          rw [if_pos ⟨rfl, inside⟩, Option.map_some, registers] at found
          rw [← Option.some.inj found]
          cases bank <;> simp only [Bank.words] at small <;>
            simp [Rank.word?, Vcpu.privateRank, Rank.zero, word, RegisterFile.raise, bankOf,
              Cells.fill, Cells.wordOf, small] <;> first | omega | rfl
        · rw [if_neg (fun both => same both.1)] at found
          have other : ¬ w = v := fun same' => same same'.symm
          rw [before.ranks w 0 rank found bank i small]
          cases bank <;>
            simp [word, RegisterFile.raise, bankOf, Cells.fill, Cells.wordOf, other]

theorem Reflects.drop (before : Reflects file d) (inside : v < d.vcpus.size) :
    Reflects (file.drop v) (d.setVcpu v none) := by
  refine ⟨fun w => ?_, before.control, ?_⟩
  · rw [Distributor.vcpu?_setVcpu]
    by_cases same : v = w
    · simp [same ▸ inside, same, RegisterFile.drop]
    · have other : ¬ w = v := fun same' => same same'.symm
      simp [same, other, before.up, RegisterFile.drop]
  · intro w index rank found
    refine before.ranks w index rank ?_
    cases index with
    | succ index => exact found
    | zero =>
        rw [Distributor.rank?, Distributor.vcpu?_setVcpu] at found
        split at found
        · cases found
        · exact found

end Vcpus

end RegisterFile

end VirtualGic
