/-
# Proofs.View — descriptors and lists, after each kind of change

Two readings of a distributor carry the whole delivery of lines: the descriptor behind
a reference (`descriptor?`) and the list of a VCPU (`inflight?`). This module says how
each kind of change shows in the two, and when a VCPU sees a reference at all:
`lineRef?_eq_some_iff` turns a look-up into "the line has this number, the VCPU sees
the reference, and there is a descriptor".

`descriptor?_dropInflight` is the one change that reaches many lines at once: it hands
back exactly the descriptors whose line was on the list.
-/
import VirtualGic.Operation

namespace VirtualGic

set_option autoImplicit false

/-! ## References and who sees them -/

namespace LineRef

/-- Whether VCPU `v` reaches the descriptor: it is shared or its own. -/
def SeenBy (v : Nat) : LineRef → Prop
  | banked w _ => w = v
  | shared _ => True

instance (v : Nat) (ref : LineRef) : Decidable (ref.SeenBy v) :=
  match ref with
  | banked w _ => inferInstanceAs (Decidable (w = v))
  | shared _ => inferInstanceAs (Decidable True)

/-- A VCPU sees at most one reference under a number. -/
theorem eq_of_seenBy {v : Nat} {a b : LineRef} (ha : a.SeenBy v) (hb : b.SeenBy v)
    (same : a.number = b.number) : a = b := by
  cases a with
  | banked w line =>
      cases b with
      | banked w' line' =>
          have numbers : line = line' := Fin.ext same
          have owners : w = w' := (show w = v from ha).trans (show w' = v from hb).symm
          rw [numbers, owners]
      | shared index =>
          simp only [number, linesPerRank] at same
          omega
  | shared index =>
      cases b with
      | banked w line =>
          simp only [number, linesPerRank] at same
          omega
      | shared index' =>
          simp only [number, Nat.add_left_cancel_iff] at same
          rw [same]

/-- A shared reference is seen by every VCPU. -/
theorem seenBy_shared {ref : LineRef} (high : 32 ≤ ref.number) (v : Nat) : ref.SeenBy v := by
  cases ref with
  | banked u line =>
      have := line.isLt
      simp only [number] at high
      omega
  | shared index => trivial

end LineRef

namespace Descriptor

/-- The line given back by `v`, with only its enable flag left. -/
def handBack (v : Nat) (p : Descriptor) : Descriptor :=
  (p.release v).settle

theorem handBack_owner (v : Nat) (p : Descriptor) :
    (p.handBack v).owner = if p.owner = some v then none else p.owner := by
  unfold handBack settle release
  split <;> rfl

@[simp] theorem handBack_line (v : Nat) (p : Descriptor) : (p.handBack v).line = p.line := by
  unfold handBack settle release
  split <;> rfl

@[simp] theorem handBack_priority (v : Nat) (p : Descriptor) :
    (p.handBack v).priority = p.priority := by
  unfold handBack settle release
  split <;> rfl

@[simp] theorem handBack_status (v : Nat) (p : Descriptor) :
    (p.handBack v).status = p.status.settled := by
  unfold handBack settle release
  split <;> rfl

/-- Giving a line back twice is giving it back once. -/
theorem handBack_handBack (v : Nat) (p : Descriptor) :
    (p.handBack v).handBack v = p.handBack v := by
  unfold handBack settle release
  split
  · simp [Status.settled]
  · simp [Status.settled]

end Descriptor

/-! ## Entries after a change of a list -/

theorem Entry.perm_insertInto (entry : Entry) (entries : List Entry) :
    (entry.insertInto entries).Perm (entry :: entries) := by
  induction entries with
  | nil => exact .refl _
  | cons head rest ih =>
      simp only [insertInto]
      split
      · exact .refl _
      · exact (ih.cons head).trans (.swap entry head rest)

namespace Inflight

theorem mem_insert {list : Inflight} {line : Nat} {priority : Byte} {entry : Entry} :
    entry ∈ (list.insert line priority).entries ↔ entry = ⟨line, priority⟩ ∨ entry ∈ list.entries :=
  Entry.mem_insertInto

theorem nodup_insert {list : Inflight} {line : Nat} (priority : Byte)
    (distinct : list.lines.Nodup) (fresh : line ∉ list.lines) :
    (list.insert line priority).lines.Nodup := by
  have reordered := (Entry.perm_insertInto ⟨line, priority⟩ list.entries).map (·.line)
  exact reordered.nodup_iff.2 (List.nodup_cons.2 ⟨fresh, distinct⟩)

theorem nodup_erase {list : Inflight} (line : Nat) (distinct : list.lines.Nodup) :
    (list.erase line).lines.Nodup :=
  List.Nodup.sublist (List.eraseP_sublist.map _) distinct

/-- On a list without repetitions, taking a line off leaves no entry of it. -/
theorem mem_erase {list : Inflight} (distinct : list.lines.Nodup) {line : Nat} {entry : Entry} :
    entry ∈ (list.erase line).entries ↔ entry ∈ list.entries ∧ entry.line ≠ line := by
  obtain ⟨capacity, entries⟩ := list
  simp only [lines, erase] at distinct ⊢
  induction entries with
  | nil => simp
  | cons head rest ih =>
      obtain ⟨single, distinct⟩ := List.nodup_cons.1 distinct
      by_cases same : head.line = line
      · have gone : ∀ other ∈ rest, other.line ≠ line :=
          fun other member same' => single (List.mem_map.2 ⟨other, member, same'.trans same.symm⟩)
        rw [List.eraseP_cons_of_pos (by simpa using same), List.mem_cons]
        constructor
        · exact fun member => ⟨.inr member, gone entry member⟩
        · rintro ⟨rfl | member, other⟩
          · exact absurd same other
          · exact member
      · rw [List.eraseP_cons_of_neg (by simpa using same), List.mem_cons, List.mem_cons,
          ih distinct]
        constructor
        · rintro (rfl | ⟨member, other⟩)
          · exact ⟨.inl rfl, same⟩
          · exact ⟨.inr member, other⟩
        · rintro ⟨rfl | member, other⟩
          · exact .inl rfl
          · exact .inr ⟨member, other⟩

end Inflight

theorem Vcpu.idle_of_create {id capacity : Nat} {vcpu : Vcpu}
    (created : Vcpu.create id capacity = .ok vcpu) :
    vcpu.rank.enable = 0 ∧ (∀ line : Fin 32, vcpu.lines.get line = Descriptor.idle line) ∧
      vcpu.inflight.entries = [] := by
  unfold Vcpu.create at created
  split at created
  · obtain rfl := Except.ok.inj created
    exact ⟨rfl, fun line => Vector.getElem_ofFn _, rfl⟩
  · cases created

namespace Distributor

/-! ## Looking lines up -/

theorem descriptor_of_eq_some {d : Distributor} {ref : LineRef} {p : Descriptor}
    (found : d.descriptor? ref = some p) : d.descriptor ref = p := by
  simp [descriptor, found]

/-- A descriptor that somebody owns is there: the idle one has no owner. -/
theorem descriptor?_of_owner {d : Distributor} {ref : LineRef} {v : Nat}
    (owned : (d.descriptor ref).owner = some v) : d.descriptor? ref = some (d.descriptor ref) := by
  cases found : d.descriptor? ref with
  | none => simp [descriptor, found, Descriptor.idle] at owned
  | some p => simp [descriptor, found]

theorem inflight?_isSome (d : Distributor) (v : Nat) :
    (d.inflight? v).isSome = (d.vcpu? v).isSome := by
  simp [inflight?]

theorem descriptor?_isSome_banked (d : Distributor) (v : Nat) (line : Fin 32) :
    (d.descriptor? (.banked v line)).isSome = (d.vcpu? v).isSome := by
  simp [descriptor?]

theorem lineRef?_eq_some_iff {d : Distributor} {v line : Nat} {ref : LineRef} :
    d.lineRef? v line = some ref ↔
      ref.number = line ∧ ref.SeenBy v ∧ (d.descriptor? ref).isSome = true := by
  unfold lineRef?
  cases ref with
  | banked w bank =>
      have small := bank.isLt
      split
      · rename_i low
        constructor
        · intro found
          obtain ⟨vcpu, present, same⟩ := Option.map_eq_some_iff.1 found
          injection same with owners banks
          subst owners banks
          exact ⟨rfl, rfl, by simp [descriptor?, present]⟩
        · rintro ⟨rfl, rfl, present⟩
          rw [descriptor?_isSome_banked, Option.isSome_iff_exists] at present
          obtain ⟨vcpu, present⟩ := present
          simp [present, LineRef.number]
      · rename_i high
        simp only [LineRef.number]
        constructor
        · intro found
          split at found <;> simp at found
        · rintro ⟨rfl, -, -⟩
          exact absurd small high
  | shared index =>
      have size : (d.descriptor? (.shared index)).isSome = true ↔ index < d.sharedLines.size := by
        simp [descriptor?]
      rw [size]
      simp only [LineRef.number, LineRef.SeenBy, true_and]
      split
      · rename_i low
        constructor
        · intro found
          obtain ⟨vcpu, -, other⟩ := Option.map_eq_some_iff.1 found
          cases other
        · rintro ⟨rfl, -⟩
          simp only [linesPerRank] at low
          omega
      · rename_i high
        constructor
        · intro found
          split at found
          · rename_i inside
            injection found with same
            injection same with same
            subst same
            refine ⟨?_, inside⟩
            simp only [linesPerRank]
            omega
          · cases found
        · rintro ⟨rfl, inside⟩
          simp [inside]

/-- The descriptor of a line, by the reference a VCPU sees. -/
theorem line?_eq_some_iff {d : Distributor} {v line : Nat} {p : Descriptor} :
    d.line? v line = some p ↔
      ∃ ref, ref.number = line ∧ ref.SeenBy v ∧ d.descriptor? ref = some p := by
  simp only [line?, Option.bind_eq_some_iff, lineRef?_eq_some_iff]
  constructor
  · rintro ⟨ref, ⟨number, seen, -⟩, found⟩
    exact ⟨ref, number, seen, found⟩
  · rintro ⟨ref, number, seen, found⟩
    exact ⟨ref, ⟨number, seen, by simp [found]⟩, found⟩

theorem resolve_eq_ok_iff {d : Distributor} {v line : Nat} {ref : LineRef} :
    d.resolve v line = .ok ref ↔ (d.vcpu? v).isSome = true ∧ d.lineRef? v line = some ref := by
  unfold resolve
  cases d.vcpu? v with
  | none => simp
  | some vcpu =>
      cases d.lineRef? v line with
      | none => simp
      | some other => simp

/-- What a VCPU finds under a number is the line of that number, which it sees and which has
a descriptor. -/
theorem found_of_resolve {d : Distributor} {v line : Nat} {ref : LineRef}
    (resolved : d.resolve v line = .ok ref) :
    (d.vcpu? v).isSome = true ∧ ref.number = line ∧ ref.SeenBy v ∧
      (d.descriptor? ref).isSome = true := by
  obtain ⟨present, found⟩ := resolve_eq_ok_iff.1 resolved
  exact ⟨present, lineRef?_eq_some_iff.1 found⟩

/-- A line that has a descriptor is found under its number by whoever sees it. -/
theorem resolve_of_seenBy {d : Distributor} {v : Nat} {ref : LineRef}
    (present : (d.vcpu? v).isSome = true) (seen : ref.SeenBy v)
    (there : (d.descriptor? ref).isSome = true) : d.resolve v ref.number = .ok ref :=
  resolve_eq_ok_iff.2 ⟨present, lineRef?_eq_some_iff.2 ⟨rfl, seen, there⟩⟩

theorem requireVcpu_eq_ok_iff {d : Distributor} {v : Nat} {vcpu : Vcpu} :
    d.requireVcpu v = .ok vcpu ↔ d.vcpu? v = some vcpu := by
  unfold requireVcpu
  cases d.vcpu? v <;> simp

theorem present_of_requireVcpu {d : Distributor} {v : Nat} {vcpu : Vcpu}
    (required : d.requireVcpu v = .ok vcpu) : (d.vcpu? v).isSome = true :=
  Option.isSome_iff_exists.2 ⟨vcpu, requireVcpu_eq_ok_iff.1 required⟩

/-! ## Entries on lists -/

/-- Whether the list of VCPU `v` has this entry. -/
def Lists (d : Distributor) (v : Nat) (entry : Entry) : Prop :=
  ∃ list, d.inflight? v = some list ∧ entry ∈ list.entries

instance (d : Distributor) (v : Nat) (entry : Entry) : Decidable (d.Lists v entry) :=
  decidable_of_iff ((d.inflight? v).any (fun list => decide (entry ∈ list.entries)) = true) <| by
    cases found : d.inflight? v <;> simp [Lists, found]

theorem Lists.present {d : Distributor} {v : Nat} {entry : Entry} (lists : d.Lists v entry) :
    (d.vcpu? v).isSome = true := by
  obtain ⟨list, found, -⟩ := lists
  rw [← inflight?_isSome, found]
  rfl

/-- Whether a line is on the list of VCPU `v`. -/
def onList (d : Distributor) (v line : Nat) : Bool :=
  (d.inflight? v).any (·.contains line)

theorem onList_iff {d : Distributor} {v line : Nat} :
    d.onList v line = true ↔ ∃ entry, d.Lists v entry ∧ entry.line = line := by
  unfold onList Lists
  cases d.inflight? v with
  | none => simp
  | some list =>
      simp only [Option.any_some, Inflight.contains_iff_mem_lines, Inflight.lines, List.mem_map,
        Option.some.injEq, exists_eq_left']

theorem lists_of_inflight? {d d' : Distributor} {v : Nat} (same : d'.inflight? v = d.inflight? v)
    {entry : Entry} : d'.Lists v entry ↔ d.Lists v entry := by
  simp only [Lists, same]

/-! ## Registers -/

theorem descriptor?_updateRank (d : Distributor) (v index : Nat) (f : Rank → Rank)
    (ref : LineRef) : (d.updateRank v index f).descriptor? ref = d.descriptor? ref := by
  cases index with
  | zero =>
      cases ref with
      | banked w line =>
          simp only [updateRank, descriptor?, vcpu?_updateVcpu]
          split
          · cases d.vcpu? w <;> rfl
          · rfl
      | shared index => rfl
  | succ index => cases ref <;> rfl

theorem inflight?_updateRank (d : Distributor) (v index : Nat) (f : Rank → Rank) (w : Nat) :
    (d.updateRank v index f).inflight? w = d.inflight? w := by
  cases index with
  | zero =>
      simp only [updateRank, inflight?, vcpu?_updateVcpu]
      split
      · cases d.vcpu? w <;> rfl
      · rfl
  | succ index => rfl

/-! ## One descriptor, one list -/

theorem descriptor?_updateLine (d : Distributor) (ref : LineRef) (f : Descriptor → Descriptor)
    (other : LineRef) :
    (d.updateLine ref f).descriptor? other =
      if ref = other then (d.descriptor? other).map f else d.descriptor? other := by
  split
  · rename_i same
    rw [← same, descriptor?_updateLine_self]
  · rename_i ne
    exact descriptor?_updateLine_ne d ne f

theorem descriptor_updateLine_self {d : Distributor} {ref : LineRef}
    (there : (d.descriptor? ref).isSome = true) (f : Descriptor → Descriptor) :
    (d.updateLine ref f).descriptor ref = f (d.descriptor ref) := by
  obtain ⟨p, found⟩ := Option.isSome_iff_exists.1 there
  rw [descriptor_of_eq_some found]
  apply descriptor_of_eq_some
  rw [descriptor?_updateLine_self, found]
  rfl

/-- The two halves of linking or unlinking a line, seen together. -/
theorem descriptor?_updateLine_updateInflight (d : Distributor) (ref : LineRef)
    (f : Descriptor → Descriptor) (v : Nat) (g : Inflight → Inflight) (other : LineRef) :
    ((d.updateLine ref f).updateInflight v g).descriptor? other =
      if ref = other then (d.descriptor? other).map f else d.descriptor? other := by
  rw [descriptor?_updateInflight, descriptor?_updateLine]

theorem inflight?_updateLine_updateInflight (d : Distributor) (ref : LineRef)
    (f : Descriptor → Descriptor) (v : Nat) (g : Inflight → Inflight) (w : Nat) :
    ((d.updateLine ref f).updateInflight v g).inflight? w =
      if v = w then (d.inflight? w).map g else d.inflight? w := by
  rw [inflight?_updateInflight, inflight?_updateLine]

/-! ## Handing back a whole list -/

theorem handBack_eq (v : Nat) (d : Distributor) (entry : Entry) :
    d.handBack v entry =
      match d.lineRef? v entry.line with
      | none => d
      | some ref => d.updateLine ref (Descriptor.handBack v) := rfl

theorem inflight?_handBack (v : Nat) (d : Distributor) (entry : Entry) (w : Nat) :
    (d.handBack v entry).inflight? w = d.inflight? w := by
  rw [handBack_eq]
  split
  · rfl
  · rw [inflight?_updateLine]

theorem descriptor?_handBack (v : Nat) (d : Distributor) (entry : Entry) (ref : LineRef) :
    (d.handBack v entry).descriptor? ref =
      if ref.SeenBy v ∧ ref.number = entry.line then (d.descriptor? ref).map (·.handBack v)
      else d.descriptor? ref := by
  rw [handBack_eq]
  split
  · rename_i absent
    split
    · rename_i seen
      cases found : d.descriptor? ref with
      | none => rfl
      | some p =>
          have : d.lineRef? v entry.line = some ref :=
            lineRef?_eq_some_iff.2 ⟨seen.2, seen.1, by simp [found]⟩
          rw [absent] at this
          cases this
    · rfl
  · rename_i target found
    obtain ⟨number, seen, -⟩ := lineRef?_eq_some_iff.1 found
    rw [descriptor?_updateLine]
    by_cases same : target = ref
    · subst same
      rw [if_pos rfl, if_pos ⟨seen, number⟩]
    · rw [if_neg same, if_neg]
      rintro ⟨seen', number'⟩
      exact same (LineRef.eq_of_seenBy seen seen' (number.trans number'.symm))

theorem inflight?_foldl_handBack (v : Nat) (entries : List Entry) (d : Distributor) (w : Nat) :
    (entries.foldl (handBack v) d).inflight? w = d.inflight? w := by
  induction entries generalizing d with
  | nil => rfl
  | cons entry rest ih => rw [List.foldl_cons, ih, inflight?_handBack]

theorem descriptor?_foldl_handBack (v : Nat) (entries : List Entry) (d : Distributor)
    (ref : LineRef) :
    (entries.foldl (handBack v) d).descriptor? ref =
      if ref.SeenBy v ∧ ref.number ∈ entries.map (·.line) then
        (d.descriptor? ref).map (·.handBack v)
      else d.descriptor? ref := by
  induction entries generalizing d with
  | nil => simp
  | cons entry rest ih =>
      rw [List.foldl_cons, ih, descriptor?_handBack]
      simp only [List.map_cons, List.mem_cons]
      by_cases seen : ref.SeenBy v
      · by_cases head : ref.number = entry.line
        · by_cases tail : entry.line ∈ rest.map (·.line)
          · simp [seen, head, tail, Option.map_map, Function.comp_def,
              Descriptor.handBack_handBack]
          · simp [seen, head, tail]
        · simp [seen, head]
      · simp [seen]

theorem inflight?_dropInflight (d : Distributor) (v w : Nat) :
    (d.dropInflight v).inflight? w =
      if v = w then (d.inflight? w).map (·.drain.2) else d.inflight? w := by
  unfold dropInflight
  split
  · rename_i absent
    split
    · rename_i same
      rw [← same, absent]
      rfl
    · rfl
  · rw [inflight?_foldl_handBack, inflight?_updateInflight]

/-- Emptying the list of `v` hands back the lines on it and nothing else. -/
theorem descriptor?_dropInflight {d : Distributor} {v : Nat} {list : Inflight}
    (found : d.inflight? v = some list) (ref : LineRef) :
    (d.dropInflight v).descriptor? ref =
      if ref.SeenBy v ∧ ref.number ∈ list.lines then (d.descriptor? ref).map (·.handBack v)
      else d.descriptor? ref := by
  unfold dropInflight
  rw [found]
  simp only [Inflight.drain]
  rw [descriptor?_foldl_handBack, descriptor?_updateInflight]
  rfl

theorem dropInflight_of_none {d : Distributor} {v : Nat} (absent : d.inflight? v = none) :
    d.dropInflight v = d := by
  simp [dropInflight, absent]

/-! ## The coming and going of VCPUs -/

theorem vcpu?_setVcpu (d : Distributor) (v : Nat) (state : Option Vcpu) (w : Nat) :
    (d.setVcpu v state).vcpu? w =
      if v = w ∧ v < d.vcpus.size then state else d.vcpu? w := by
  simp only [setVcpu, vcpu?, Array.getElem?_setIfInBounds]
  by_cases same : v = w
  · subst same
    by_cases inside : v < d.vcpus.size
    · simp [inside]
    · simp [inside]
  · simp [same]

theorem inflight?_setVcpu (d : Distributor) (v : Nat) (state : Option Vcpu) (w : Nat) :
    (d.setVcpu v state).inflight? w =
      if v = w ∧ v < d.vcpus.size then state.map (·.inflight) else d.inflight? w := by
  simp only [inflight?, vcpu?_setVcpu]
  split <;> rfl

theorem descriptor?_setVcpu_banked (d : Distributor) (v : Nat) (state : Option Vcpu) (w : Nat)
    (line : Fin 32) :
    (d.setVcpu v state).descriptor? (.banked w line) =
      if v = w ∧ v < d.vcpus.size then state.map (·.lines.get line)
      else d.descriptor? (.banked w line) := by
  simp only [descriptor?, vcpu?_setVcpu]
  split <;> rfl

end Distributor

end VirtualGic
