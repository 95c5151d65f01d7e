/-
# Proofs.Switching — physical interrupts follow their lines

Lines are switched on and off by two operations, and by writes of the enable bitmap for the bits
that these change. `Distributor.switch?` is which lines an operation switches, and for which VCPU.
They are served one after the other, and each has one turn (`Turn`). In it everything else is done
first, and in the end the physical interrupt behind the line is unmasked or masked, if there is
one.

So what an operation tells of physical interrupts can be read off the lines it switches
(`exists_switched`), and an operation that switches no line tells of none (`masking_of_none`).
-/
import VirtualGic.Proofs.Backing
import VirtualGic.Proofs.Boundary
import VirtualGic.Proofs.RankIndex

namespace VirtualGic

set_option autoImplicit false

/-- The calls that mask or unmask a physical interrupt. -/
def Call.isMask : Call → Bool
  | enablePhysical _ | disablePhysical _ => true
  | _ => false

/-- Lines that are switched on or off for a VCPU, in this order. -/
structure Switch where
  vcpu : Nat
  on : Bool
  lines : List Nat

namespace Switch

/-- Switch the lines of a mask in a rank. Nothing is switched if their numbers overflow. -/
def ofMask (v : Nat) (on : Bool) (mask : Word) (rank : Nat) : Switch :=
  ⟨v, on, (maskedLines rank mask).toOption.getD []⟩

/-- What the physical controller is told of an interrupt. -/
def call (switch : Switch) (irq : Nat) : Call :=
  if switch.on then .enablePhysical irq else .disablePhysical irq

variable {σ : Type} [Host σ]

/-- Serve one of the lines. -/
def serve (switch : Switch) : Machine σ → Nat → Machine σ :=
  if switch.on then Machine.enableLine switch.vcpu
  else Machine.disableLine (fun _ => []) switch.vcpu

/-- Tell the physical controller of what is behind a line. -/
def tell (switch : Switch) (backing : Option Nat) (m : Machine σ) : Machine σ :=
  match backing with
  | none => m
  | some irq => m.call (switch.call irq)

end Switch

namespace Distributor

/-- The interrupt behind a line as VCPU `v` sees it. -/
def behind (d : Distributor) (v line : Nat) : Option Nat :=
  ((d.lineRef? v line).bind d.backing?).join

/-- The lines that a write switches: those whose bit it changes. -/
def writeSwitch? (d : Distributor) (v offset : Nat) (width : Width) (value : Word) :
    Option Switch :=
  (Frame.group? offset).bind fun group =>
    let index := rankIndex Bank.enable.words (offset - group.first)
    if (d.vcpu? v).isSome && group.widths.allow width then
      match group.register, d.rank? v index with
      | .setEnable, some rank => some (.ofMask v true (value &&& ~~~rank.enable) index)
      | .clearEnable, some rank => some (.ofMask v false (value &&& rank.enable) index)
      | _, _ => none
    else none

/-- The lines that an operation switches. -/
def switch? (d : Distributor) : Operation → Option Switch
  | .enableLines v mask rank =>
      if (d.vcpu? v).isSome then some (.ofMask v true mask rank) else none
  | .disableLines v mask rank =>
      if (d.vcpu? v).isSome then some (.ofMask v false mask rank) else none
  | .write v offset width value => d.writeSwitch? v offset width value
  | .writeAt v address width value =>
      (d.config.frameOffset address).toOption.bind fun offset =>
        d.writeSwitch? v offset width value
  | _ => none

end Distributor

namespace Machine

variable {σ : Type}

/-- What was told of physical interrupts, oldest first. -/
def masking (m : Machine σ) : List Call :=
  m.calls.filter Call.isMask

theorem masking_of_makes [Host σ] {C : Call → Prop} {m m' : Machine σ} (makes : Makes C m m')
    (calm : ∀ c, C c → c.isMask = false) : m'.masking = m.masking := by
  obtain ⟨made, after, sort⟩ := makes.new
  have none : made.filter Call.isMask = [] :=
    List.filter_eq_nil_iff.2 fun c member => by simp [calm c (sort c member)]
  rw [masking, after, List.filter_append, none, List.append_nil, masking]

variable [Host σ]

/-- The turn of a line between `m` and `m'`. In `u`, everything is done but telling the physical
controller of what is behind the line. -/
structure Turn (switch : Switch) (ref : LineRef) (backing : Option Nat) (m u m' : Machine σ) :
    Prop where
  quiet : u.masking = m.masking
  told : m' = switch.tell backing u
  /-- A line that is switched off is off its list by then, and out of the queues. -/
  dequeued : switch.on = false → ∀ p, m.dist.descriptor? ref = some p →
    u.dist.descriptor? ref = some p.dequeued ∧
      (∀ w, ref.SeenBy w → u.dist.onList w ref.number = false) ∧
      u.calls = m.calls ++ [.remove (p.owner.getD switch.vcpu) ref.number]

/-- An operation serves the lines of a switch, from `start` on, and each of them once. -/
structure Switched (s : Machine σ) (operation : Operation) (switch : Switch)
    (start : Machine σ) : Prop where
  calls : start.calls = s.calls
  descriptors : ∀ ref, start.dist.descriptor? ref = s.dist.descriptor? ref
  once : switch.lines.Nodup
  served : (s.perform operation).2 = switch.lines.foldl switch.serve start
  /-- What is told of physical interrupts are those behind the lines. -/
  told : (s.perform operation).2.masking = s.masking ++
    switch.lines.flatMap fun line => (s.dist.behind switch.vcpu line).toList.map switch.call

end Machine

/-! ## The acts of serving lines -/

/-- The acts of enabling or disabling lines. -/
def Act.Switches (a : Act) : Prop :=
  a.Enables (fun _ => True) ∨ a.Disables (fun _ => True)

theorem Act.Switches.fixed {a : Act} :
    a.Switches → match a with | .allocate .. | .release _ => False | _ => True := by
  rintro (kind | kind) <;> cases a <;> trivial

theorem Act.Switches.not_rewires {a : Act} (switches : a.Switches) (ref : LineRef) :
    ¬ a.Rewires ref :=
  switches.elim Enables.not_rewires Disables.not_rewires

theorem Act.Registers.fixed {a : Act} :
    a.Registers → match a with | .allocate .. | .release _ => False | _ => True := by
  intro registers
  cases a <;> trivial

theorem Act.Registers.not_rewires {a : Act} (registers : a.Registers) (ref : LineRef) :
    ¬ a.Rewires ref := by
  cases a <;> first | exact id | exact registers.elim

theorem Call.Delivers.isMask {c : Call} (delivers : c.Delivers) : c.isMask = false := by
  cases c <;> first | rfl | exact delivers.elim

theorem Register.isMask_of_mayCall {register : Register} {c : Call}
    (set : register ≠ .setEnable) (clear : register ≠ .clearEnable)
    (may : register.MayCall c) : c.isMask = false := by
  cases register with
  | setEnable => exact absurd rfl set
  | clearEnable => exact absurd rfl clear
  | softwareInterrupt => exact Call.Delivers.isMask may
  | _ => exact may.elim

namespace Distributor

variable {d : Distributor} {v : Nat} {ref : LineRef} {backing : Option Nat}

theorem lineRef?_of_backing? (seen : ref.SeenBy v) (held : d.backing? ref = some backing) :
    d.lineRef? v ref.number = some ref := by
  obtain ⟨p, found, -⟩ := Option.map_eq_some_iff.1 held
  exact lineRef?_eq_some_iff.2 ⟨rfl, seen, by simp [found]⟩

theorem behind_of_backing? (seen : ref.SeenBy v) (held : d.backing? ref = some backing) :
    d.behind v ref.number = backing := by
  rw [behind, lineRef?_of_backing? seen held, Option.bind_some, held, Option.join_some]

end Distributor

namespace Machine

variable {σ : Type}

/-- Acts that make and release no VCPU and rewire nothing leave what is behind every line. -/
theorem behind_of_steps {K : Act → Prop} {m m' : Machine σ} (steps : Steps K m m')
    (fixed : ∀ a, K a → match a with | .allocate .. | .release _ => False | _ => True)
    (spares : ∀ a, K a → ∀ ref, ¬ a.Rewires ref) (v line : Nat) :
    m'.dist.behind v line = m.dist.behind v line := by
  have looked : m'.dist.lineRef? v line = m.dist.lineRef? v line :=
    Distributor.lineRef?_of_shape steps.shape (vcpu?_isSome_of_steps fixed steps v) line
  cases found : m.dist.lineRef? v line with
  | none => rw [Distributor.behind, Distributor.behind, looked, found]; rfl
  | some ref =>
      obtain ⟨rfl, seen, there⟩ := Distributor.lineRef?_eq_some_iff.1 found
      obtain ⟨p, known⟩ := Option.isSome_iff_exists.1 there
      have held := Distributor.backing?_of_descriptor? known
      have kept := backing?_of_steps steps (fun a kind => spares a kind ref) held
      rw [Distributor.behind_of_backing? seen held, Distributor.behind_of_backing? seen kept]

variable [Host σ]

/-- Lines can be served for the VCPU of the switch. -/
structure Ready (switch : Switch) (m : Machine σ) : Prop where
  consistent : Consistent m.dist
  present : (m.dist.vcpu? switch.vcpu).isSome = true

section Turns

variable {switch : Switch} {m u m' : Machine σ} {ref : LineRef} {backing : Option Nat}

theorem serve_of_none {line : Nat} (absent : m.dist.lineRef? switch.vcpu line = none) :
    switch.serve m line = m := by
  unfold Switch.serve
  split
  · exact enableLine_of_none absent
  · exact disableLine_of_none absent _

theorem Ready.steps (ready : Ready switch m) (line : Nat) :
    Steps Act.Switches m (switch.serve m line) := by
  unfold Switch.serve
  split
  · exact (steps_enableLine m line ready.present).mono fun a enables =>
      .inl (enables.mono fun _ _ => trivial)
  · exact (steps_disableLine m line).mono fun a disables =>
      .inr (disables.mono fun _ _ => trivial)

theorem Ready.serve (ready : Ready switch m) (line : Nat) : Ready switch (switch.serve m line) :=
  ⟨(ready.steps line).consistent ready.consistent,
    present_of_steps (fun _ => Act.Switches.fixed) (ready.steps line) ready.present⟩

theorem Ready.foldl (ready : Ready switch m) (lines : List Nat) :
    Ready switch (lines.foldl switch.serve m) := by
  induction lines generalizing m with
  | nil => exact ready
  | cons line rest ih => exact ih (ready.serve line)

theorem Ready.backing? (ready : Ready switch m) (held : m.dist.backing? ref = some backing)
    (lines : List Nat) : (lines.foldl switch.serve m).dist.backing? ref = some backing := by
  induction lines generalizing m with
  | nil => exact held
  | cons line rest ih =>
      exact ih (ready.serve line) (backing?_of_steps (ready.steps line)
        (fun a switches => switches.not_rewires ref) held)

/-! ## One turn -/

theorem masking_tell (switch : Switch) (backing : Option Nat) (m : Machine σ) :
    (switch.tell backing m).masking = m.masking ++ backing.toList.map switch.call := by
  cases backing with
  | none => exact (List.append_nil _).symm
  | some irq =>
      have told : (switch.call irq).isMask = true := by
        unfold Switch.call
        split <;> rfl
      simp [Switch.tell, masking, told]

theorem Turn.masking (turn : Turn switch ref backing m u m') :
    m'.masking = m.masking ++ backing.toList.map switch.call := by
  rw [turn.told, masking_tell, turn.quiet]

theorem enablePhysical_eq_tell (on : switch.on = true)
    (held : m.dist.backing? ref = some backing) : m.enablePhysical ref = switch.tell backing m := by
  obtain ⟨p, found, rfl⟩ := Option.map_eq_some_iff.1 held
  rw [enablePhysical, Distributor.descriptor_of_eq_some found]
  cases p.phys with
  | none => rfl
  | some irq => exact congrArg m.call (if_pos on).symm

theorem disablePhysical_eq_tell (off : switch.on = false)
    (held : m.dist.backing? ref = some backing) :
    m.disablePhysical ref = switch.tell backing m := by
  obtain ⟨p, found, rfl⟩ := Option.map_eq_some_iff.1 held
  rw [disablePhysical, Distributor.descriptor_of_eq_some found]
  cases p.phys with
  | none => rfl
  | some irq => exact congrArg m.call (if_neg (Bool.eq_false_iff.1 off)).symm

theorem exists_turn_on (ready : Ready switch m) (on : switch.on = true)
    (seen : ref.SeenBy switch.vcpu) (held : m.dist.backing? ref = some backing) :
    ∃ u, Turn switch ref backing m u (switch.serve m ref.number) := by
  have looked := Distributor.lineRef?_of_backing? seen held
  have kept := ready.backing? held [ref.number]
  have served : switch.serve m ref.number =
      ((m.enabled ref).showEnabled switch.vcpu ref.number ref).enablePhysical ref := by
    rw [Switch.serve, if_pos on, enableLine_of_some looked]
  refine ⟨(m.enabled ref).showEnabled switch.vcpu ref.number ref, ?_, ?_, fun off => ?_⟩
  · have enabled : Makes Call.Claims m (m.enabled ref) := .modify m _
    refine masking_of_makes (enabled.trans (makes_showEnabled _ _ _ _)) fun c claims => ?_
    cases c <;> first | rfl | exact claims.elim
  · rw [served]
    rw [List.foldl_cons, List.foldl_nil, served, dist_enablePhysical] at kept
    exact enablePhysical_eq_tell on kept
  · rw [on] at off
    cases off

theorem exists_turn_off (ready : Ready switch m) (off : switch.on = false)
    (seen : ref.SeenBy switch.vcpu) (held : m.dist.backing? ref = some backing) :
    ∃ u, Turn switch ref backing m u (switch.serve m ref.number) := by
  obtain ⟨p, found, rfl⟩ := Option.map_eq_some_iff.1 held
  have looked := Distributor.lineRef?_of_backing? seen held
  have kept := ready.backing? held [ref.number]
  have served : switch.serve m ref.number = disableLine (fun _ => []) switch.vcpu m ref.number := by
    rw [Switch.serve, if_neg (by simp [off])]
  have stretch := dequeued_disableLine ready.consistent switch.vcpu ref.number
  rw [List.foldl_cons, List.foldl_nil] at kept
  rw [served, disableLine_of_some looked, dist_disablePhysical] at kept
  rw [disableLine_of_some looked] at served stretch
  have named : ref.Named switch.vcpu [ref.number] := ⟨seen, List.mem_singleton_self _⟩
  -- The stretch is all of the turn, and the last call of it is the one that is told in the end.
  have calls : ((m.disabled ref).dequeue [] switch.vcpu ref ref.number).calls =
      m.calls ++ [.remove (p.owner.getD switch.vcpu) ref.number] := by
    have all := stretch.calls
    obtain ⟨q, after, same⟩ := Option.map_eq_some_iff.1 kept
    rw [calls_disablePhysical, Distributor.descriptor_of_eq_some after, same, List.filterMap_cons,
      Distributor.line?_eq_some_iff.2 ⟨ref, rfl, seen, found⟩] at all
    simp only [List.filterMap_nil, List.flatMap_cons, List.flatMap_nil, List.append_nil,
      Descriptor.dequeues, ready.consistent.numbered found] at all
    exact List.append_cancel_right (all.trans (List.append_cons ..))
  refine ⟨(m.disabled ref).dequeue [] switch.vcpu ref ref.number, ?_, ?_, fun _ q known => ?_⟩
  · rw [masking, calls, List.filter_append]
    exact List.append_nil _
  · rw [served]
    exact disablePhysical_eq_tell off kept
  · obtain rfl := Option.some.inj (found.symm.trans known)
    have descriptors := stretch.descriptors ref
    rw [dist_disablePhysical, if_pos named, found, Option.map_some] at descriptors
    refine ⟨descriptors, fun w seen' => ?_, calls⟩
    rw [← dist_disablePhysical]
    exact stretch.unlisted named seen'

theorem exists_turn (ready : Ready switch m) (seen : ref.SeenBy switch.vcpu)
    (held : m.dist.backing? ref = some backing) :
    ∃ u, Turn switch ref backing m u (switch.serve m ref.number) := by
  cases on : switch.on with
  | true => exact exists_turn_on ready on seen held
  | false => exact exists_turn_off ready on seen held

/-! ## Turn after turn -/

theorem masking_serve (ready : Ready switch m) (line : Nat) :
    (switch.serve m line).masking =
      m.masking ++ (m.dist.behind switch.vcpu line).toList.map switch.call := by
  cases looked : m.dist.lineRef? switch.vcpu line with
  | none =>
      rw [serve_of_none looked, Distributor.behind, looked]
      exact (List.append_nil _).symm
  | some ref =>
      obtain ⟨rfl, seen, there⟩ := Distributor.lineRef?_eq_some_iff.1 looked
      obtain ⟨p, found⟩ := Option.isSome_iff_exists.1 there
      have held := Distributor.backing?_of_descriptor? found
      obtain ⟨u, turn⟩ := exists_turn ready seen held
      rw [turn.masking, Distributor.behind_of_backing? seen held]

theorem masking_foldl (ready : Ready switch m) (lines : List Nat) :
    (lines.foldl switch.serve m).masking = m.masking ++
      lines.flatMap fun line => (m.dist.behind switch.vcpu line).toList.map switch.call := by
  induction lines generalizing m with
  | nil => exact (List.append_nil _).symm
  | cons line rest ih =>
      have same := behind_of_steps (ready.steps line) (fun _ => Act.Switches.fixed)
        (fun _ switches => switches.not_rewires) switch.vcpu
      rw [List.foldl_cons, ih (ready.serve line), masking_serve ready, List.flatMap_cons,
        List.append_assoc]
      simp only [same]

end Turns

/-! ## Masks -/

section Masks

variable {s start : Machine σ} {operation : Operation} {switch : Switch}

omit [Host σ] in
theorem nodup_ofMask (v : Nat) (on : Bool) (mask : Word) (rank : Nat) :
    (Switch.ofMask v on mask rank).lines.Nodup := by
  unfold Switch.ofMask
  cases masked : maskedLines rank mask with
  | error fault => exact List.nodup_nil
  | ok lines => exact nodup_maskedLines masked

theorem enableMask_eq_foldl (m : Machine σ) (v : Nat) (mask : Word) (rank : Nat) :
    (m.enableMask v mask rank).2 =
      (Switch.ofMask v true mask rank).lines.foldl (Switch.ofMask v true mask rank).serve m := by
  unfold enableMask Switch.ofMask
  cases maskedLines rank mask <;> rfl

theorem disableMask_eq_foldl (m : Machine σ) (v : Nat) (mask : Word) (rank : Nat) :
    (m.disableMask (fun _ => []) v mask rank).2 =
      (Switch.ofMask v false mask rank).lines.foldl (Switch.ofMask v false mask rank).serve m := by
  unfold disableMask Switch.ofMask
  cases maskedLines rank mask <;> rfl

/-- An operation that serves lines after acts about registers. -/
theorem Switched.of_steps (steps : Steps Act.Registers s start) (consistent : Consistent s.dist)
    (present : (s.dist.vcpu? switch.vcpu).isSome = true) (calls : start.calls = s.calls)
    (once : switch.lines.Nodup)
    (served : (s.perform operation).2 = switch.lines.foldl switch.serve start) :
    s.Switched operation switch start ∧ Ready switch start := by
  have ready : Ready switch start :=
    ⟨steps.consistent consistent, present_of_steps (fun _ => Act.Registers.fixed) steps present⟩
  have behind := behind_of_steps steps (fun _ => Act.Registers.fixed)
    (fun _ registers => registers.not_rewires) switch.vcpu
  refine ⟨⟨calls, fun ref => ?_, once, served, ?_⟩, ready⟩
  · exact steps.descriptor?_kept fun a registers d => registers.descriptor?_apply ref
  · rw [served, masking_foldl ready, masking, masking, calls]
    simp only [behind]

/-- The state in which the register is written and no line is served yet. -/
def stored (s : Machine σ) (v : Nat) (n : Note) (index : Nat) (f : Rank → Rank) : Machine σ :=
  (s.note n).modify (·.updateRank v index f)

omit [Host σ] in
theorem steps_stored (s : Machine σ) (v : Nat) {n : Note}
    (harmless : ∀ line v, n ≠ .ownerMissing line v) (index : Nat) (f : Rank → Rank) :
    Steps Act.Registers s (s.stored v n index f) := by
  have noted : Steps Act.Registers s (s.note n) :=
    (steps_note s n harmless).mono fun a idles => by cases a <;> trivial
  exact noted.trans (.single (a := .store v index f) ⟨trivial, rfl, (List.append_nil _).symm⟩
    trivial)

omit [Host σ] in
theorem writeSwitch?_eq_some {v offset : Nat} {width : Width} {value : Word}
    (found : s.dist.writeSwitch? v offset width value = some switch) :
    ∃ (group : Group) (rank : Rank), group.Accepts offset width ∧
      (s.dist.vcpu? v).isSome = true ∧
      s.dist.rank? v (rankIndex Bank.enable.words (offset - group.first)) = some rank ∧
      (group.register = .setEnable ∧ switch = .ofMask v true (value &&& ~~~rank.enable)
          (rankIndex Bank.enable.words (offset - group.first)) ∨
        group.register = .clearEnable ∧ switch = .ofMask v false (value &&& rank.enable)
          (rankIndex Bank.enable.words (offset - group.first))) := by
  obtain ⟨group, looked, found⟩ := Option.bind_eq_some_iff.1 found
  simp only at found
  split at found
  · rename_i allowed
    obtain ⟨present, width⟩ := Bool.and_eq_true_iff.1 allowed
    split at found
    · rename_i rank set there
      exact ⟨group, rank, ⟨looked, width⟩, present, there, .inl ⟨set, (Option.some.inj found).symm⟩⟩
    · rename_i rank clear there
      exact ⟨group, rank, ⟨looked, width⟩, present, there,
        .inr ⟨clear, (Option.some.inj found).symm⟩⟩
    · cases found
  · cases found

theorem writeSetEnable_of_rank {m : Machine σ} {v : Nat} {access : Access} {value : Word}
    {rank : Rank}
    (there : m.dist.rank? v (rankIndex Bank.enable.words access.position) = some rank) :
    (m.writeSetEnable v access value).2 =
      ((m.modify (·.updateRank v (rankIndex Bank.enable.words access.position)
        fun rank => { rank with enable := rank.enable ||| value })).enableMask v
          (value &&& ~~~rank.enable) (rankIndex Bank.enable.words access.position)).2 := by
  unfold writeSetEnable
  simp only [there]
  split
  · rename_i unchanged
    rw [enableMask, unchanged, maskedLines_zero]
    rfl
  · rfl

theorem writeClearEnable_of_rank {m : Machine σ} {v : Nat} {access : Access} {value : Word}
    {rank : Rank}
    (there : m.dist.rank? v (rankIndex Bank.enable.words access.position) = some rank) :
    (m.writeClearEnable v access value).2 =
      ((m.modify (·.updateRank v (rankIndex Bank.enable.words access.position)
        fun rank => { rank with enable := rank.enable &&& ~~~value })).disableMask (fun _ => []) v
          (value &&& rank.enable) (rankIndex Bank.enable.words access.position)).2 := by
  unfold writeClearEnable
  simp only [there]
  split
  · rename_i unchanged
    rw [disableMask, unchanged, maskedLines_zero]
    rfl
  · rfl

theorem exists_switched_write (consistent : Consistent s.dist) {v offset : Nat} {width : Width}
    {value : Word} (found : s.dist.writeSwitch? v offset width value = some switch)
    (performed : (s.perform operation).2 = (s.write v offset width value).2) :
    ∃ start, s.Switched operation switch start ∧ Ready switch start := by
  obtain ⟨group, rank, accepts, present, there, sort⟩ := writeSwitch?_eq_some found
  have noted := steps_stored s v (n := .registerWritten v group.name (offset - group.first) value)
    (by intros; simp) (rankIndex Bank.enable.words (offset - group.first))
  rw [write_of_accepts present accepts] at performed
  obtain ⟨sort, rfl⟩ | ⟨sort, rfl⟩ := sort
  · refine ⟨_, Switched.of_steps (noted fun rank => { rank with enable := rank.enable ||| value })
      consistent present (calls_note ..) (nodup_ofMask ..) (performed.trans ?_)⟩
    rw [sort, ← enableMask_eq_foldl]
    exact writeSetEnable_of_rank there
  · refine ⟨_, Switched.of_steps
      (noted fun rank => { rank with enable := rank.enable &&& ~~~value }) consistent present
      (calls_note ..) (nodup_ofMask ..) (performed.trans ?_)⟩
    rw [sort, ← disableMask_eq_foldl]
    exact writeClearEnable_of_rank there

/-- An operation that switches lines serves them, each in its turn. -/
theorem exists_switched (consistent : Consistent s.dist)
    (found : s.dist.switch? operation = some switch) :
    ∃ start, s.Switched operation switch start ∧ Ready switch start := by
  cases operation with
  | enableLines v mask rank =>
      obtain ⟨present, known⟩ := Option.ite_none_right_eq_some.1 found
      obtain rfl := Option.some.inj known
      refine ⟨s, Switched.of_steps (.refl s) consistent present rfl (nodup_ofMask ..) ?_⟩
      rw [← enableMask_eq_foldl, ← enableLines_of_present present]
      rfl
  | disableLines v mask rank =>
      obtain ⟨present, known⟩ := Option.ite_none_right_eq_some.1 found
      obtain rfl := Option.some.inj known
      refine ⟨s, Switched.of_steps (.refl s) consistent present rfl (nodup_ofMask ..) ?_⟩
      rw [← disableMask_eq_foldl, ← disableLines_of_present present]
      rfl
  | write v offset width value => exact exists_switched_write consistent found rfl
  | writeAt v address width value =>
      cases framed : s.dist.config.frameOffset address with
      | error error =>
          rw [Distributor.switch?, framed] at found
          cases found
      | ok offset =>
          rw [Distributor.switch?, framed] at found
          have performed : (s.perform (.writeAt v address width value)).2 =
              (s.write v offset width value).2 := by
            show (s.writeAt v address width value).2 = _
            rw [writeAt, framed]
          exact exists_switched_write consistent found performed
  | _ => cases found

end Masks

/-! ## Operations that switch nothing -/

section Silent

variable {s : Machine σ}

omit [Host σ] in
/-- A write of the enable bitmap switches lines unless its rank is absent. -/
theorem rank?_of_writeSwitch?_none {v offset : Nat} {width : Width} {value : Word} {group : Group}
    (nothing : s.dist.writeSwitch? v offset width value = none)
    (present : (s.dist.vcpu? v).isSome = true) (accepts : group.Accepts offset width)
    (sort : group.register = .setEnable ∨ group.register = .clearEnable) :
    s.dist.rank? v (rankIndex Bank.enable.words (offset - group.first)) = none := by
  cases there : s.dist.rank? v (rankIndex Bank.enable.words (offset - group.first)) with
  | none => rfl
  | some rank =>
      rw [Distributor.writeSwitch?, accepts.1, Option.bind_some] at nothing
      rcases sort with sort | sort <;> simp [present, accepts.2, sort, there] at nothing

theorem masking_write_of_none {v offset : Nat} {width : Width} {value : Word}
    (nothing : s.dist.writeSwitch? v offset width value = none) :
    (s.write v offset width value).2.masking = s.masking := by
  rcases s.write_cases v offset width value with
    ⟨-, -, still | decoded⟩ | ⟨present, group, accepts, reached⟩
  · rw [still]
  · rw [decoded]
    refine masking_of_makes (makes_decode s v offset width) ?_
    rintro c rfl
    rfl
  · rw [reached]
    have noted : (s.note (.registerWritten v group.name (offset - group.first) value)).masking =
        s.masking := by
      rw [masking, calls_note, masking]
    rw [← noted]
    by_cases sort : group.register = .setEnable ∨ group.register = .clearEnable
    · have absent := rank?_of_writeSwitch?_none nothing present accepts sort
      have wide : group.register.bits? = some Bank.enable.words := by
        rcases sort with sort | sort <;> rw [sort] <;> rfl
      exact congrArg (List.filter Call.isMask) (untouched_writeRegister wide absent value).calls
    · obtain ⟨set, clear⟩ := not_or.1 sort
      exact masking_of_makes (makes_writeRegister _ v _ value group.register)
        fun c may => Register.isMask_of_mayCall set clear may

/-- An operation that switches no line tells of no physical interrupt. -/
theorem masking_of_none {operation : Operation} (nothing : s.dist.switch? operation = none) :
    (s.perform operation).2.masking = s.masking := by
  cases operation with
  | enableLines v mask rank =>
      have absent : s.dist.vcpu? v = none := by simpa [Distributor.switch?] using nothing
      show (s.enableLines v mask rank).2.masking = _
      rw [enableLines, Distributor.requireVcpu, absent]
  | disableLines v mask rank =>
      have absent : s.dist.vcpu? v = none := by simpa [Distributor.switch?] using nothing
      show (s.disableLines v mask rank).2.masking = _
      rw [disableLines, disableLinesAmid, Distributor.requireVcpu, absent]
  | write v offset width value => exact masking_write_of_none nothing
  | writeAt v address width value =>
      show (s.writeAt v address width value).2.masking = _
      cases framed : s.dist.config.frameOffset address with
      | error error => rw [writeAt, framed]
      | ok offset =>
          rw [Distributor.switch?, framed] at nothing
          rw [writeAt, framed]
          exact masking_write_of_none nothing
  | read | readAt | clearPending | freeVcpu =>
      refine masking_of_makes (s.perform_makes _) ?_
      rintro c rfl
      rfl
  | inject | injectSpi | dispatchSoftware =>
      exact masking_of_makes (s.perform_makes _) fun c => Call.Delivers.isMask
  | retire v line =>
      refine masking_of_makes (s.perform_makes (.retire v line)) ?_
      rintro c ⟨priority, rfl⟩
      rfl
  | _ => exact masking_of_makes (s.perform_makes _) fun c impossible => impossible.elim

end Silent

end Machine

end VirtualGic
