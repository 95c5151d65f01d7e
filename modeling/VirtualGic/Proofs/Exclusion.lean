/-
# Proofs.Exclusion — guards come one after the other

A thread with a guard reads and stores the value while other threads try to take the lock and
look at its flag. `sections` collects from a history what each guard was used for, guard by
guard in the order in which the lock was taken, wherever in the history the uses stand.
`serial_run` says that this is the order in which they happened (`ordered`): no use of a
guard comes between two uses of another. So a guard reads what the guards before it have left,
or it itself (`seen`), and no update is lost (`composed`).

`Effect` is what a turn can come to while there is one guard at most: nothing, taking the free
lock, a use of the one guard, or dropping it. `Sound.effect` goes through the steps once;
everything else is an induction over the turns of a history (`Course`) by these four cases.

The number of a thread stands for the guard that the thread took. Which thread carries the
guard about makes no difference.
-/
import Mathlib.Data.List.Forall2
import VirtualGic.SpinLock

namespace VirtualGic

set_option autoImplicit false

namespace SpinLock

variable {α : Type}

/-! ## What guards are used for -/

/-- A use of a guard: a value is read or stored. -/
inductive Use (α : Type) where
  | read (seen : α)
  | store (new : α)
deriving DecidableEq

namespace Use

/-- The value that a use stores. -/
def stored? : Use α → Option α
  | read _ => none
  | store new => some new

/-- The value that the last store among some uses has left, `value` before any. -/
def lastStored (value : α) (uses : List (Use α)) : α :=
  (uses.filterMap stored?).getLastD value

/-- Every read has seen the value of the last store before it, `value` before any. -/
def Faithful (value : α) (uses : List (Use α)) : Prop :=
  ∀ before seen after, uses = before ++ read seen :: after → seen = lastStored value before

variable {value : α} {uses more : List (Use α)}

theorem lastStored_store (value new : α) (uses : List (Use α)) :
    lastStored value (store new :: uses) = lastStored new uses :=
  List.getLastD_cons

theorem lastStored_append (value : α) (uses more : List (Use α)) :
    lastStored value (uses ++ more) = lastStored (lastStored value uses) more := by
  induction uses generalizing value with
  | nil => rfl
  | cons use rest ih =>
      cases use with
      | read seen => exact ih value
      | store new => rw [List.cons_append, lastStored_store, lastStored_store, ih]

/-- Reads among the later uses see what the earlier ones have left. -/
theorem faithful_append_iff :
    Faithful value (uses ++ more) ↔ Faithful value uses ∧ Faithful (lastStored value uses) more := by
  constructor
  · intro faithful
    constructor
    · rintro before seen after rfl
      exact faithful before seen (after ++ more) (by simp)
    · rintro before seen after rfl
      rw [← lastStored_append]
      exact faithful (uses ++ before) seen after (by simp)
  · rintro ⟨first, second⟩ before seen after split
    -- The read is one of the later uses, the first of them, or one of the earlier uses.
    rcases List.append_eq_append_iff.1 split with ⟨middle, rfl, later⟩ | ⟨middle, rfl, earlier⟩
    · rw [lastStored_append]
      exact second middle seen after later
    · cases middle with
      | nil =>
          rw [List.append_nil] at second
          exact second [] seen after earlier.symm
      | cons use rest =>
          obtain ⟨rfl, -⟩ := List.cons.inj earlier
          exact first before seen rest rfl

theorem faithful_nil (value : α) : Faithful value [] := by
  intro before seen after split
  simp at split

theorem faithful_read_iff {seen : α} : Faithful value [read seen] ↔ seen = value := by
  constructor
  · exact fun faithful => faithful [] seen [] rfl
  · rintro rfl before other after split
    cases before with
    | nil =>
        injection split with same
        injection same with same
        exact same.symm
    | cons use rest => simp at split

theorem faithful_store (value new : α) : Faithful value [store new] := by
  intro before seen after split
  have member : read seen ∈ [store new] := split ▸ by simp
  simp at member

end Use

/-- What a thread does with a guard. What it stores may depend on what it has read. -/
inductive Work (α : Type) where
  | finish
  | read (next : α → Work α)
  | store (new : α) (next : Work α)

namespace Work

/-- Read the value, and store what `f` makes of it. -/
def modify (f : α → α) : Work α :=
  .read fun seen => .store (f seen) .finish

/-- What becomes of a value when the work is done and nothing else. -/
def update : Work α → α → α
  | finish, value => value
  | read next, value => (next value).update value
  | store new next, _ => next.update new

/-- The uses of a guard by which work is done from its beginning to its end. -/
inductive DoneBy : Work α → List (Use α) → Prop
  | finish : DoneBy .finish []
  | read {next : α → Work α} {seen : α} {uses : List (Use α)} (rest : DoneBy (next seen) uses) :
      DoneBy (.read next) (.read seen :: uses)
  | store {new : α} {next : Work α} {uses : List (Use α)} (rest : DoneBy next uses) :
      DoneBy (.store new next) (.store new :: uses)

/-- Work that sees what is there leaves its update. -/
theorem DoneBy.lastStored {work : Work α} {uses : List (Use α)} (done : work.DoneBy uses)
    {value : α} (faithful : Use.Faithful value uses) :
    Use.lastStored value uses = work.update value := by
  induction done generalizing value with
  | finish => rfl
  | @read next seen uses rest ih =>
      rw [← List.singleton_append] at faithful
      obtain ⟨first, later⟩ := Use.faithful_append_iff.1 faithful
      obtain rfl := Use.faithful_read_iff.1 first
      exact ih later
  | @store new next uses rest ih =>
      rw [← List.singleton_append] at faithful ⊢
      obtain ⟨-, later⟩ := Use.faithful_append_iff.1 faithful
      exact (Use.lastStored_append value [.store new] uses).trans (ih later)

/-- Work after work leaves the composition of the updates. -/
theorem lastStored_flatten {works : List (Work α)} {sections : List (List (Use α))}
    (done : List.Forall₂ DoneBy works sections) {value : α}
    (faithful : Use.Faithful value sections.flatten) :
    Use.lastStored value sections.flatten =
      works.foldl (fun value work => work.update value) value := by
  induction done generalizing value with
  | nil => rfl
  | cons first _ ih =>
      rw [List.flatten_cons] at faithful ⊢
      obtain ⟨here, later⟩ := Use.faithful_append_iff.1 faithful
      rw [Use.lastStored_append, List.foldl_cons, ih later, first.lastStored here]

end Work

/-! ## Histories -/

/-- A step of a thread, and what the thread has learned from it. -/
structure Turn (α : Type) where
  thread : Nat
  step : Step α
  outcome : Outcome α
deriving DecidableEq

/-- What a turn has to do with guards. -/
inductive Kind (α : Type) where
  /-- Nothing: a look at the flag, or a step that failed. -/
  | other
  /-- There is a guard from now on. -/
  | take
  /-- A guard is used. -/
  | use (made : Use α)
  /-- A guard is dropped. -/
  | drop
deriving DecidableEq

namespace Turn

def kind : Turn α → Kind α
  | ⟨_, .attempt _, .taken true⟩ => .take
  | ⟨_, .read, .value seen⟩ => .use (.read seen)
  | ⟨_, .store new, .done⟩ => .use (.store new)
  | ⟨_, .release, .done⟩ => .drop
  | _ => .other

/-- The use that a turn makes of a guard. -/
def use? (turn : Turn α) : Option (Use α) :=
  match turn.kind with
  | .use made => some made
  | _ => none

def isDrop (turn : Turn α) : Bool :=
  match turn.kind with
  | .drop => true
  | _ => false

end Turn

/-- The steps of a run, with what the threads have learned from them. -/
def history (lock : SpinLock α) (steps : List (Nat × Step α)) : List (Turn α) :=
  List.zipWith (fun taken outcome => ⟨taken.1, taken.2, outcome⟩) steps (lock.run steps).1

/-- What the guard of `thread` is used for before it is dropped. -/
def usesOf (thread : Nat) : List (Turn α) → List (Use α)
  | [] => []
  | turn :: later =>
      if turn.thread = thread then
        match turn.kind with
        | .drop => []
        | .use made => made :: usesOf thread later
        | _ => usesOf thread later
      else usesOf thread later

/-- What each guard is used for, in the order in which the lock was taken. -/
def sections : List (Turn α) → List (List (Use α))
  | [] => []
  | turn :: later =>
      match turn.kind with
      | .take => usesOf turn.thread later :: sections later
      | _ => sections later

/-! ## One turn -/

theorem holds_iff_mem {lock : SpinLock α} {thread : Nat} :
    lock.holds thread = true ↔ thread ∈ lock.guards :=
  List.contains_iff_mem

/-- There is one guard at most, and the flag tells whether there is one. -/
structure Sound (lock : SpinLock α) : Prop where
  exclusive : lock.guards.length ≤ 1
  flag : lock.locked = !lock.guards.isEmpty

/-- What a turn can come to. -/
inductive Effect (lock : SpinLock α) (turn : Turn α) : SpinLock α → Prop
  | other (kind : turn.kind = .other) : Effect lock turn lock
  | take (kind : turn.kind = .take) (free : lock.guards = []) :
      Effect lock turn { lock with locked := true, guards := [turn.thread] }
  | use {made : Use α} (kind : turn.kind = .use made) (held : lock.guards = [turn.thread])
      (seen : Use.Faithful lock.value [made]) :
      Effect lock turn { lock with value := Use.lastStored lock.value [made] }
  | drop (kind : turn.kind = .drop) (held : lock.guards = [turn.thread]) :
      Effect lock turn { lock with locked := false, guards := [] }

namespace Sound

variable {lock next : SpinLock α} {turn : Turn α}

theorem create (value : α) : Sound (create value) :=
  ⟨Nat.zero_le 1, rfl⟩

theorem guards_of_holds (sound : lock.Sound) {thread : Nat} (holds : lock.holds thread = true) :
    lock.guards = [thread] := by
  have member := holds_iff_mem.1 holds
  obtain ⟨other, same⟩ := List.length_eq_one_iff.1
    (Nat.le_antisymm sound.exclusive (List.length_pos_of_mem member))
  rw [same] at member
  rw [same, List.mem_singleton.1 member]

theorem guards_of_free (sound : lock.Sound) (free : lock.locked = false) : lock.guards = [] := by
  simpa [sound.flag] using free

theorem effect (sound : lock.Sound) (thread : Nat) (step : Step α) :
    lock.Effect ⟨thread, step, (lock.perform thread step).1⟩ (lock.perform thread step).2 := by
  cases step with
  | attempt spurious =>
      simp only [SpinLock.perform]
      split
      · exact .other rfl
      · rename_i succeeds
        obtain ⟨unlocked, -⟩ : lock.locked = false ∧ spurious = false := by simpa using succeeds
        have free := sound.guards_of_free unlocked
        rw [free]
        exact .take rfl free
  | probe => exact .other rfl
  | read =>
      simp only [SpinLock.perform]
      split
      · rename_i holds
        exact .use rfl (sound.guards_of_holds holds) (Use.faithful_read_iff.2 rfl)
      · exact .other rfl
  | store new =>
      simp only [SpinLock.perform]
      split
      · rename_i holds
        exact .use rfl (sound.guards_of_holds holds) (Use.faithful_store lock.value new)
      · exact .other rfl
  | release =>
      simp only [SpinLock.perform]
      split
      · rename_i holds
        have held := sound.guards_of_holds holds
        rw [held, List.erase_cons_head]
        exact .drop rfl held
      · exact .other rfl

theorem of_effect (sound : lock.Sound) (effect : lock.Effect turn next) : next.Sound := by
  cases effect with
  | other kind => exact sound
  | take kind free => exact ⟨Nat.le_refl 1, rfl⟩
  | use kind held seen => exact ⟨sound.exclusive, sound.flag⟩
  | drop kind held => exact ⟨Nat.zero_le 1, rfl⟩

end Sound

/-! ## Whole histories -/

/-- The turns by which one lock becomes another. -/
inductive Course : SpinLock α → List (Turn α) → SpinLock α → Prop
  | nil (lock : SpinLock α) : Course lock [] lock
  | cons {lock next last : SpinLock α} {turn : Turn α} {later : List (Turn α)}
      (effect : lock.Effect turn next) (rest : Course next later last) :
      Course lock (turn :: later) last

theorem Sound.course {lock : SpinLock α} (sound : lock.Sound) (steps : List (Nat × Step α)) :
    lock.Course (lock.history steps) (lock.run steps).2 := by
  induction steps generalizing lock with
  | nil => exact .nil lock
  | cons head steps ih =>
      have effect := sound.effect head.1 head.2
      exact .cons effect (ih (sound.of_effect effect))

namespace Course

variable {lock last : SpinLock α} {turns : List (Turn α)}

theorem sound (course : lock.Course turns last) (sound : lock.Sound) : last.Sound := by
  induction course with
  | nil => exact sound
  | cons effect _ ih => exact ih (sound.of_effect effect)

/-- Every guard was there at first or is taken, and it is dropped or there in the end. -/
theorem counted (course : lock.Course turns last) :
    lock.guards.length + (sections turns).length =
      turns.countP Turn.isDrop + last.guards.length := by
  -- Each kind of turn moves one guard from one count to another, or none.
  induction course with
  | nil => simp [sections]
  | cons effect _ ih =>
      cases effect with
      | other kind => simpa [sections, Turn.isDrop, kind] using ih
      | use kind held seen => simpa [sections, Turn.isDrop, kind] using ih
      | take kind free =>
          simp only [sections, Turn.isDrop, kind, free, List.countP_cons, List.length_cons,
            List.length_nil, Bool.false_eq_true, if_false] at ih ⊢
          omega
      | drop kind held =>
          simp only [sections, Turn.isDrop, kind, held, List.countP_cons, List.length_cons,
            List.length_nil, if_true] at ih ⊢
          omega

/-- Guards are used in the order in which the lock is taken, after the one that is there. -/
theorem ordered (course : lock.Course turns last) :
    turns.filterMap Turn.use? =
      lock.guards.flatMap (fun thread => usesOf thread turns) ++ (sections turns).flatten := by
  induction course with
  | nil => simp [sections, usesOf]
  | cons effect _ ih =>
      cases effect with
      | other kind => simpa [sections, Turn.use?, usesOf, kind] using ih
      | take kind free => simpa [sections, Turn.use?, usesOf, kind, free] using ih
      | use kind held seen => simpa [sections, Turn.use?, usesOf, kind, held] using ih
      | drop kind held => simpa [sections, Turn.use?, usesOf, kind, held] using ih

/-- Reads see what is there, and what was stored last is there in the end. -/
theorem faithful (course : lock.Course turns last) :
    Use.Faithful lock.value (turns.filterMap Turn.use?) ∧
      last.value = Use.lastStored lock.value (turns.filterMap Turn.use?) := by
  induction course with
  | nil lock => exact ⟨Use.faithful_nil lock.value, rfl⟩
  | @cons lock next last turn later effect _ ih =>
      cases effect with
      | other kind => simpa [Turn.use?, kind] using ih
      | take kind free => simpa [Turn.use?, kind] using ih
      | drop kind held => simpa [Turn.use?, kind] using ih
      | @use made kind held seen =>
          rw [List.filterMap_cons_some (show turn.use? = some made by simp [Turn.use?, kind]),
            ← List.singleton_append, Use.faithful_append_iff, Use.lastStored_append]
          exact ⟨⟨seen, ih.1⟩, ih.2⟩

end Course

/-- What becomes of a lock that was made with `value`, after the turns `turns`. -/
structure Serial (value : α) (turns : List (Turn α)) (lock : SpinLock α) : Prop where
  /-- There is one guard at most. -/
  exclusive : lock.guards.length ≤ 1
  /-- The lock was taken once for every guard that was dropped and for one that is there. -/
  counted : (sections turns).length = turns.countP Turn.isDrop + lock.guards.length
  /-- The flag is set exactly while there is a guard. -/
  flag : ∀ thread, lock.perform thread .probe = (.flag !lock.guards.isEmpty, lock)
  /-- An attempt takes the lock unless there is a guard, or it fails without a reason. -/
  attempt : ∀ thread spurious,
    (lock.perform thread (.attempt spurious)).1 = .taken (lock.guards.isEmpty && !spurious)
  /-- The guards are used one after the other, in the order in which the lock was taken. -/
  ordered : turns.filterMap Turn.use? = (sections turns).flatten
  /-- A read has seen the last store of its own guard, or else of the guards before. -/
  seen : Use.Faithful value (sections turns).flatten
  /-- So does the next read through a guard. -/
  current : ∀ thread ∈ lock.guards, lock.perform thread .read =
    (.value (Use.lastStored value (sections turns).flatten), lock)
  /-- When every guard has done its work, the updates are composed in the order in which the
  lock was taken. -/
  composed : ∀ works, List.Forall₂ Work.DoneBy works (sections turns) →
    lock.value = works.foldl (fun value work => work.update value) value

/-- Whatever steps any threads take in any order, guards come one after the other, and what one
leaves the next one finds. -/
theorem serial_run (value : α) (steps : List (Nat × Step α)) :
    Serial value ((create value).history steps) ((create value).run steps).2 := by
  have course := (Sound.create value).course steps
  have sound := course.sound (.create value)
  -- A new lock has no guard whose uses would come first.
  have ordered : ((create value).history steps).filterMap Turn.use? =
      (sections ((create value).history steps)).flatten := course.ordered
  have counted := (Nat.zero_add _).symm.trans course.counted
  obtain ⟨seen, left⟩ := course.faithful
  rw [ordered] at seen left
  refine ⟨sound.exclusive, counted, ?_, ?_, ordered, seen, ?_, ?_⟩
  · intro thread
    simp only [perform, sound.flag]
  · intro thread spurious
    simp only [perform, sound.flag]
    cases spurious <;> cases ((SpinLock.create value).run steps).2.guards.isEmpty <;> rfl
  · intro thread member
    simp only [perform, holds_iff_mem.2 member, if_true, left]
    rfl
  · intro works done
    exact left.trans (Work.lastStored_flatten done seen)

/-- Three threads change the value once each. Thread 2 tries early and gets the lock last,
and thread 3 fails once although the lock is free. -/
theorem serial_run_contended :
    let steps : List (Nat × Step Nat) := [(1, .attempt false), (2, .attempt false), (1, .read),
      (3, .probe), (2, .attempt true), (1, .store 6), (1, .release), (3, .attempt true),
      (3, .attempt false), (2, .attempt false), (3, .read), (2, .probe), (3, .store 12),
      (3, .release), (2, .attempt false), (2, .read), (2, .store 9)]
    let lock := ((create 5).run steps).2
    let turns := (create 5).history steps
    List.Forall₂ Work.DoneBy [.modify (· + 1), .modify (· * 2), .modify (· - 3)]
        (sections turns) ∧
      lock.guards = [2] ∧ lock.value = 9 := by
  intro steps lock turns
  have done : List.Forall₂ Work.DoneBy [.modify (· + 1), .modify (· * 2), .modify (· - 3)]
      (sections turns) :=
    .cons (.read (.store .finish)) (.cons (.read (.store .finish))
      (.cons (.read (.store .finish)) .nil))
  exact ⟨done, rfl, (serial_run 5 steps).composed _ done⟩

end SpinLock

end VirtualGic
