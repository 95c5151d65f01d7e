/-
# State.Rank — the registers of 32 lines

A rank holds the register words of 32 consecutive lines. The words of one kind form
a bank: one word for a bitmap, two for the trigger bits, eight for bytes per line,
four for the senders of the sixteen software interrupts. An access to a bank with
`bits` bits per line finds rank and word from its offset (`rankIndex`, `wordIndex`).
-/
import VirtualGic.Bits.Lane
import VirtualGic.Config
import VirtualGic.SpinLock

namespace VirtualGic

set_option autoImplicit false

/-- The register words of one kind in a rank. -/
inductive Bank where
  | enable
  | pending
  | active
  | priority
  | targets
  | trigger
  | senders
deriving DecidableEq

namespace Bank

/-- The number of words a bank has in one rank. -/
def words : Bank → Nat
  | enable | pending | active => 1
  | priority | targets => 8
  | trigger => 2
  | senders => 4

end Bank

/-- The registers of 32 lines. -/
structure Rank where
  /-- The enable bitmap. -/
  enable : Word := 0
  /-- The pending bitmap. -/
  pending : Word := 0
  /-- The active bitmap. -/
  active : Word := 0
  /-- One priority byte per line. -/
  priority : Vector Word 8 := Vector.replicate 8 0
  /-- One target mask per line. -/
  targets : Vector Word 8 := Vector.replicate 8 0
  /-- Two trigger bits per line. -/
  trigger : Vector Word 2 := Vector.replicate 2 0
  /-- The senders of pending software interrupts, one byte per interrupt. -/
  senders : Vector Word 4 := Vector.replicate 4 0
deriving DecidableEq

namespace Rank

/-- The rank with every register zero. -/
def zero : Rank := {}

/-- A word of a bank, if the bank has it. -/
def word? (rank : Rank) : Bank → Nat → Option Word
  | .enable, index => if index = 0 then some rank.enable else none
  | .pending, index => if index = 0 then some rank.pending else none
  | .active, index => if index = 0 then some rank.active else none
  | .priority, index => rank.priority[index]?
  | .targets, index => rank.targets[index]?
  | .trigger, index => rank.trigger[index]?
  | .senders, index => rank.senders[index]?

/-- The rank with a word of a bank replaced. A word that the bank does not have
changes nothing. -/
def setWord (rank : Rank) (bank : Bank) (index : Nat) (value : Word) : Rank :=
  match bank with
  | .enable => if index = 0 then { rank with enable := value } else rank
  | .pending => if index = 0 then { rank with pending := value } else rank
  | .active => if index = 0 then { rank with active := value } else rank
  | .priority => { rank with priority := rank.priority.setIfInBounds index value }
  | .targets => { rank with targets := rank.targets.setIfInBounds index value }
  | .trigger => { rank with trigger := rank.trigger.setIfInBounds index value }
  | .senders => { rank with senders := rank.senders.setIfInBounds index value }

/-- The byte of line `index` in a bank with one byte per line. -/
def byte? (rank : Rank) (bank : Bank) (index : Nat) : Option Byte :=
  (rank.word? bank (index / 4)).map (Word.lane · index)

/-- The priority of line `index` of the rank. -/
def priority? (rank : Rank) (index : Nat) : Option Byte :=
  rank.byte? .priority index

/-- The target mask of line `index` of the rank. -/
def target? (rank : Rank) (index : Nat) : Option Byte :=
  rank.byte? .targets index

/-- The rank with a word of a bank replaced, if the bank has it. -/
def setWord? (rank : Rank) (bank : Bank) (index : Nat) (value : Word) : Option Rank :=
  if index < bank.words then some (rank.setWord bank index value) else none

/-- The rank with the priority of line `index` replaced, if it has such a line. -/
def setPriority? (rank : Rank) (index : Nat) (priority : Byte) : Option Rank :=
  (rank.word? .priority (index / 4)).bind fun word =>
    rank.setWord? .priority (index / 4) (Word.setLane word index priority)

/-- The rank in one line, which shows its lock and no register. Nobody holds the lock
between operations. -/
def describe (rank : Rank) : String :=
  "Rank \x7b regs: " ++ (SpinLock.create rank).describe ++ " \x7d"

theorem word?_isSome_iff (rank : Rank) (bank : Bank) (index : Nat) :
    (rank.word? bank index).isSome = true ↔ index < bank.words := by
  cases bank with
  | enable | pending | active =>
      by_cases h : index = 0
      · simp [word?, Bank.words, h]
      · simp [word?, Bank.words, h]
  | priority | targets | trigger | senders => simp [word?, Bank.words]

theorem word?_setWord_self (rank : Rank) (bank : Bank) {index : Nat} (value : Word)
    (h : index < bank.words) : (rank.setWord bank index value).word? bank index = some value := by
  cases bank with
  | enable | pending | active =>
      obtain rfl : index = 0 := Nat.lt_one_iff.1 h
      rfl
  | priority | targets | trigger | senders =>
      simp only [Bank.words] at h
      simp [setWord, word?, h]

end Rank

/-- The rank that `offset` addresses inside a group with `bits` bits per line. -/
def rankIndex (bits offset : Nat) : Nat :=
  offset / 4 / bits

/-- The word within its rank that `offset` addresses inside a group with `bits` bits
per line, which has `bits` words in a rank. -/
def wordIndex (bits offset : Nat) : Nat :=
  offset / 4 % bits

/-- Rank and word that `offset` addresses; a group without bits per line has none. -/
def addressed (bits offset : Nat) : Except Fault (Nat × Nat) :=
  if bits = 0 then .error .divisionByZero else .ok (rankIndex bits offset, wordIndex bits offset)

/-- The rank that holds `line`. -/
def rankOfLine (line : Nat) : Nat :=
  line / linesPerRank

end VirtualGic
