/-
# SpinLock — a lock that threads take in turns

A lock is a flag and the value it protects. A thread takes it by one compare-exchange
of the flag, which may fail although the lock is free, and then has a guard: it may
read and store the value, and gives the lock back by dropping the guard. A thread that
waits repeats attempts and probes of the flag. `run` carries out any interleaving of
the steps of any threads.
-/
namespace VirtualGic

set_option autoImplicit false

/-- A lock, the value it protects, and the threads with a guard. -/
structure SpinLock (α : Type) where
  /-- The flag. -/
  locked : Bool := false
  /-- The protected value. -/
  value : α
  /-- The threads that have a guard. -/
  guards : List Nat := []
deriving DecidableEq

namespace SpinLock

variable {α : Type}

/-- One step of a thread. -/
inductive Step (α : Type) where
  /-- Try to take the lock; the attempt may fail without a reason. -/
  | attempt (spurious : Bool)
  /-- Look at the flag. -/
  | probe
  /-- Read the value through the guard. -/
  | read
  /-- Store a value through the guard. -/
  | store (value : α)
  /-- Drop the guard. -/
  | release
deriving DecidableEq

/-- What a thread learns from its step. -/
inductive Outcome (α : Type) where
  /-- Whether the lock was taken. -/
  | taken (success : Bool)
  /-- Whether the flag was set. -/
  | flag (locked : Bool)
  /-- The value that was read. -/
  | value (value : α)
  /-- The step is done. -/
  | done
  /-- The thread has no guard for the step, and nothing happened. -/
  | unguarded
deriving DecidableEq

/-- A free lock. -/
def create (value : α) : SpinLock α :=
  { value }

/-- Whether a thread has a guard. -/
def holds (lock : SpinLock α) (thread : Nat) : Bool :=
  lock.guards.contains thread

/-- Carry out one step of a thread. -/
def perform (lock : SpinLock α) (thread : Nat) : Step α → Outcome α × SpinLock α
  | .attempt spurious =>
      if lock.locked || spurious then (.taken false, lock)
      else (.taken true, { lock with locked := true, guards := thread :: lock.guards })
  | .probe => (.flag lock.locked, lock)
  | .read => if lock.holds thread then (.value lock.value, lock) else (.unguarded, lock)
  | .store value =>
      if lock.holds thread then (.done, { lock with value }) else (.unguarded, lock)
  | .release =>
      if lock.holds thread then
        (.done, { lock with locked := false, guards := lock.guards.erase thread })
      else (.unguarded, lock)

/-- Carry out the steps of threads in the given order, with what each learns. -/
def run (lock : SpinLock α) : List (Nat × Step α) → List (Outcome α) × SpinLock α
  | [] => ([], lock)
  | (thread, step) :: steps =>
      let first := lock.perform thread step
      let rest := first.2.run steps
      (first.1 :: rest.1, rest.2)

/-- The lock in one line, without its value. -/
def describe (lock : SpinLock α) : String :=
  "SpinLock \x7b " ++ s!"locked: {lock.locked}, .." ++ " \x7d"

theorem run_append (lock : SpinLock α) (first second : List (Nat × Step α)) :
    (lock.run (first ++ second)).2 = ((lock.run first).2.run second).2 := by
  induction first generalizing lock with
  | nil => rfl
  | cons head rest ih => exact ih _

end SpinLock

end VirtualGic
