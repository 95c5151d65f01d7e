/-
# Proofs.Wakes — who is woken, and when

A VCPU that a line is raised on may be blocked, or run on another processor, and does not
see the line unless it is told. `wakes_run` says who is told. An operation is taken apart at
its deliveries, of which it may make several; each of them ends by waking the VCPU that then
has the line on its list, and by telling the processor which that VCPU ran on before it was
woken, unless it is the one that the operation runs on. All other operations, and everything
that is dropped or fails, wake nobody.

`Operation.MayDeliver` is which lines an operation may deliver, and `Operation.Stage` what the
host is asked beforehand. `delivering_perform` puts together what the functions of the program
deliver; the calls follow from it, because nothing between deliveries wakes anybody
(`Deliveries.filter_isWake`).
-/
import VirtualGic.Proofs.Deliveries
import VirtualGic.Proofs.Refusal

namespace VirtualGic

set_option autoImplicit false

/-! ## Whole operations -/

/-- The calls between deliveries: lines that are inflight may be shown, none is raised
again, and nobody is woken. -/
def Call.Between (shows : Bool) : Call → Prop
  | raise .. => shows = true
  | raiseInflight .. | unblock _ | check _ => False
  | _ => True

theorem Call.Shows.between {c : Call} (sort : c.Shows) : c.Between true := by
  cases c with
  | raise | enablePhysical => trivial
  | _ => exact sort.elim

theorem Call.Between.isWake {c : Call} {shows : Bool} (sort : c.Between shows) :
    c.isWake = false := by
  cases c with
  | unblock | check => exact sort.elim
  | _ => rfl

theorem Failure.filter_isWake_calls (failure : Failure) : failure.calls.filter Call.isWake = [] := by
  unfold calls
  split <;> rfl

namespace Register

/-- The lines that are delivered when VCPU `v` writes `value` at `position` in a group of this
register. -/
def MayDeliver (config : Config) (v position : Nat) (value : Word) : Register → LineRef → Prop
  | .setEnable, ref =>
      ref.Masked v value (rankIndex Bank.enable.words position) ∧ ref.number = config.upcallLine
  | .softwareInterrupt, ref => ref.number = (SoftwareInterrupt.line.read value).toNat
  | _, _ => False

/-- How a write to a register delivers. -/
def Stage {σ : Type} [Host σ] : Register → Machine σ → Delivered → Machine σ → Prop
  | .softwareInterrupt => Machine.Vouched
  | _ => Machine.Latched

end Register

/-- The lines that are delivered when VCPU `v` writes `value` at `offset` of the frame. -/
def LineRef.DeliveredBy (config : Config) (v offset : Nat) (value : Word) (ref : LineRef) : Prop :=
  ∃ group, Frame.group? offset = some group ∧
    group.register.MayDeliver config v (offset - group.first) value ref

namespace Operation

section Reached

variable {config : Config} {v offset : Nat} {width : Width} {value : Word} {group : Group}

theorem register?_write (found : Frame.group? offset = some group) :
    (Operation.write v offset width value).register? config = some group.register := by
  rw [register?, offset?, Option.bind_some, found, Option.map_some]

theorem register?_writeAt {address : BitVec 64} (inside : config.frameOffset address = .ok offset)
    (found : Frame.group? offset = some group) :
    (Operation.writeAt v address width value).register? config = some group.register := by
  rw [register?, offset?, inside, Except.toOption, Option.bind_some, found, Option.map_some]

end Reached

/-- The lines that an operation may deliver. -/
def MayDeliver (config : Config) : Operation → LineRef → Prop
  | .inject v line, ref => ref.Named v [line]
  | .injectSpi line, ref => ref.number = line
  | .dispatchSoftware _ value, ref => ref.number = (SoftwareInterrupt.line.read value).toNat
  | .enableLines v mask rank, ref => ref.Masked v mask rank ∧ ref.number = config.upcallLine
  | .write v offset _ value, ref => ref.DeliveredBy config v offset value
  | .writeAt v address _ value, ref =>
      ∃ offset, config.frameOffset address = .ok offset ∧ ref.DeliveredBy config v offset value
  | _, _ => False

/-- How an operation delivers: the host is asked about the VCPU of a software interrupt
beforehand, and about the upcall of the event-channel line before that. -/
def Stage {σ : Type} [Host σ] (config : Config) (operation : Operation) :
    Machine σ → Delivered → Machine σ → Prop :=
  match operation with
  | .inject .. | .injectSpi _ => Machine.Delivery
  | .dispatchSoftware .. => Machine.Vouched
  | .write .. | .writeAt .. => fun m d m' =>
      ∃ register, operation.register? config = some register ∧ register.Stage m d m'
  | _ => Machine.Latched

/-- Whether an operation raises a line without asking the host beforehand. -/
def isInjection : Operation → Bool
  | .inject .. | .injectSpi _ => true
  | _ => false

/-- Whether an operation may show lines that are inflight already. -/
def shows (config : Config) (operation : Operation) : Bool :=
  match operation with
  | .enableLines .. | .retire .. => true
  | .write .. | .writeAt .. => operation.register? config = some .setEnable
  | _ => false

end Operation

namespace Machine

variable {σ : Type} [Host σ]

theorem Vouched.shorter {C : Call → Prop} {m m' : Machine σ} {d : Delivered}
    (vouched : m.Vouched d m') : ∃ b, Quiet C m b ∧ b.Delivery d m' := by
  obtain ⟨-, b, rfl | ⟨n, rfl⟩, one⟩ := vouched
  · exact ⟨b, .refl b, one⟩
  · exact ⟨(m.online d.holder).2.note n, .of_same rfl ((makes_online m d.holder).trans (.note _ n)),
      one⟩

theorem Latched.shorter {C : Call → Prop} {m m' : Machine σ} {d : Delivered}
    (latched : m.Latched d m') : ∃ b, Quiet C m b ∧ b.Vouched d m' :=
  ⟨(m.upcallPending d.holder).2, .of_same rfl (makes_upcallPending m d.holder), latched.2⟩

theorem delivering_writeRegister {m : Machine σ} (consistent : Consistent m.dist) {v : Nat}
    (access : Access) (value : Word) (register : Register)
    (present : (m.dist.vcpu? v).isSome = true) :
    Delivering register.Stage (Call.Between (decide (register = .setEnable)))
      (register.MayDeliver m.dist.config v access.position value) m
      (m.writeRegister v access value register).2 := by
  have takes := m.steps_writeRegister access value register present
  have quiet : (∀ a, register.Takes m.dist v access.position value a → a.Calms) →
      (∀ c, register.MayCall c → c.Between (decide (register = .setEnable))) →
      Delivering register.Stage (Call.Between (decide (register = .setEnable)))
        (register.MayDeliver m.dist.config v access.position value) m
        (m.writeRegister v access value register).2 := fun calms within =>
    .of_quiet (.of_steps takes calms ((makes_writeRegister m v access value register).mono within))
  cases register with
  | setEnable =>
      exact (delivering_writeSetEnable consistent access value present).mono
        (fun _ sort => sort.between) fun _ inside => inside
  | softwareInterrupt => exact delivering_sendSoftware consistent v value
  | clearEnable =>
      refine quiet ?_ ?_
      · rintro a (⟨f, rfl⟩ | disables)
        · trivial
        · exact disables.calms
      · intro c disables
        cases c with
        | remove | disablePhysical => trivial
        | _ => exact disables.elim
  | control =>
      refine quiet ?_ fun _ => False.elim
      rintro a (idle | ⟨enabled, rfl⟩)
      · exact idle.calms
      · trivial
  | clearActive | priority | targets | trigger =>
      refine quiet ?_ fun _ => False.elim
      rintro a (idle | ⟨index, f, rfl, -⟩)
      · exact idle.calms
      · trivial
  | _ => exact quiet (fun _ idle => Act.Idles.calms idle) fun _ => False.elim

/-- A write delivers what the register it reaches delivers, if it reaches one. -/
theorem delivering_write {m : Machine σ} (consistent : Consistent m.dist) (v offset : Nat)
    (width : Width) (value : Word) {shows : Bool}
    (reaches : ∀ group, Frame.group? offset = some group →
      shows = decide (group.register = .setEnable)) :
    Delivering (fun b d c => ∃ group, Frame.group? offset = some group ∧ group.register.Stage b d c)
      (Call.Between shows) (LineRef.DeliveredBy m.dist.config v offset value) m
      (m.write v offset width value).2 := by
  rcases m.write_cases v offset width value with
    ⟨-, -, still | decoded⟩ | ⟨present, group, accepts, reached⟩
  · rw [still]
    exact .of_quiet (.refl m)
  · rw [decoded]
    refine .of_quiet (.of_steps (steps_decode m v offset width) (fun _ idle => idle.calms)
      ((makes_decode m v offset width).mono ?_))
    rintro _ rfl
    trivial
  · have found := accepts.1
    have noted := Quiet.note (C := Call.Between shows) m
      (.registerWritten v group.name (offset - group.first) value)
    have written := delivering_writeRegister (m := m.note
      (.registerWritten v group.name (offset - group.first) value)) consistent
        (group.access offset width false) value group.register present
    rw [reached]
    refine .quiet_then noted ?_
    rw [reaches group found]
    exact (written.refine fun b d c one => ⟨b, .refl b, group, found, one⟩).mono
      (fun _ sort => sort) fun ref inside => ⟨group, found, inside⟩

theorem delivering_perform {m : Machine σ} (consistent : Consistent m.dist)
    (operation : Operation) :
    Delivering (operation.Stage m.dist.config) (Call.Between (operation.shows m.dist.config))
      (operation.MayDeliver m.dist.config) m (m.perform operation).2 := by
  have quiet : (∀ a, operation.Takes m.dist a → a.Calms) →
      (∀ c, operation.MayCall c → c.Between (operation.shows m.dist.config)) →
      Delivering (operation.Stage m.dist.config) (Call.Between (operation.shows m.dist.config))
        (operation.MayDeliver m.dist.config) m (m.perform operation).2 := fun calms within =>
    .of_quiet (.of_steps (m.perform_steps operation) calms ((m.perform_makes operation).mono within))
  cases operation with
  | inject v line => exact delivering_inject consistent v line
  | injectSpi line => exact delivering_injectSpi consistent line
  | dispatchSoftware v value =>
      show Delivering _ _ _ m (m.dispatchSoftware v value).2
      unfold dispatchSoftware
      split
      · exact .of_quiet (.refl m)
      · exact delivering_sendSoftware consistent v value
  | enableLines v mask rank =>
      show Delivering _ _ _ m (m.enableLines v mask rank).2
      unfold enableLines
      split
      · exact .of_quiet (.refl m)
      · rename_i vcpu required
        have present := Distributor.present_of_requireVcpu required
        exact (delivering_enableMask consistent mask rank present).mono
          (fun _ sort => sort.between) fun _ inside => inside
  | write v offset width value =>
      refine (delivering_write consistent v offset width value ?_).refine ?_
      · intro group found
        simp [Operation.shows, Operation.register?_write found]
      · rintro b d c ⟨group, found, one⟩
        exact ⟨b, .refl b, group.register, Operation.register?_write found, one⟩
  | writeAt v address width value =>
      show Delivering _ _ _ m (m.writeAt v address width value).2
      unfold writeAt
      split
      · exact .of_quiet (.refl m)
      · rename_i offset inside
        refine ((delivering_write consistent v offset width value ?_).refine ?_).mono
          (fun _ sort => sort) fun ref one => ⟨offset, inside, one⟩
        · intro group found
          simp [Operation.shows, Operation.register?_writeAt inside found]
        · rintro b d c ⟨group, found, one⟩
          exact ⟨b, .refl b, group.register, Operation.register?_writeAt inside found, one⟩
  | initVcpu v =>
      refine quiet ?_ fun _ => False.elim
      rintro a (idle | ⟨vcpu, rfl⟩)
      · exact idle.calms
      · trivial
  | freeVcpu v =>
      refine quiet ?_ ?_
      · rintro a (idle | rfl | rfl)
        · exact idle.calms
        · trivial
        · trivial
      · rintro _ rfl
        trivial
  | clearPending v =>
      refine quiet ?_ ?_
      · rintro a (idle | rfl)
        · exact idle.calms
        · trivial
      · rintro _ rfl
        trivial
  | read | readAt =>
      refine quiet (fun _ idle => Act.Idles.calms idle) ?_
      rintro _ rfl
      trivial
  | disableLines v mask rank =>
      refine quiet (fun _ takes => takes.2.calms) ?_
      intro c disables
      cases c with
      | remove | disablePhysical => trivial
      | _ => exact disables.elim
  | setVisible | setActive | unroutePhysical =>
      refine quiet ?_ fun _ => False.elim
      rintro a ⟨ref, -, rfl⟩
      trivial
  | routePhysical =>
      refine quiet ?_ fun _ => False.elim
      rintro a (idle | ⟨ref, -, rfl⟩)
      · exact idle.calms
      · trivial
  | retire v line =>
      refine quiet ?_ ?_
      · rintro a ⟨ref, -, takes⟩
        split at takes
        · rw [takes]
          trivial
        · rcases takes with rfl | rfl <;> trivial
      · rintro _ ⟨priority, rfl⟩
        rfl
  | inflightLines | pendingStatus =>
      exact quiet (fun _ idle => Act.Idles.calms idle) fun _ => False.elim

/-! ## Every history -/

variable {config : Config} {C : Call → Prop} {m m' : Machine σ}

/-- Whatever is no injection delivers to VCPUs that the host calls online. -/
theorem vouched_of_stage {operation : Operation} {d : Delivered}
    (plain : operation.isInjection = false) (one : operation.Stage config m d m') :
    ∃ b, Quiet C m b ∧ b.Vouched d m' := by
  cases operation with
  | inject | injectSpi => cases plain
  | dispatchSoftware => exact ⟨m, .refl m, one⟩
  | write | writeAt =>
      obtain ⟨register, -, one⟩ := one
      cases register with
      | softwareInterrupt => exact ⟨m, .refl m, one⟩
      | _ => exact Latched.shorter one
  | _ => exact Latched.shorter one

/-- Some way into every stage of an operation, the delivery proper begins. -/
theorem delivery_of_stage {operation : Operation} {d : Delivered}
    (one : operation.Stage config m d m') : ∃ b, Quiet C m b ∧ b.Delivery d m' := by
  cases injects : operation.isInjection with
  | false =>
      obtain ⟨b, still, vouched⟩ := vouched_of_stage (C := C) injects one
      obtain ⟨b', still', one⟩ := vouched.shorter (C := C)
      exact ⟨b', still.trans still', one⟩
  | true =>
      cases operation with
      | inject | injectSpi => exact ⟨m, .refl m, one⟩
      | _ => cases injects

theorem filter_isWake_of_makes (makes : Makes C m m') (silent : ∀ c, C c → c.isWake = false) :
    ∃ new, m'.calls = m.calls ++ new ∧ new.filter Call.isWake = [] := by
  obtain ⟨new, after, sort⟩ := makes.new
  refine ⟨new, after, List.filter_eq_nil_iff.2 fun c member => ?_⟩
  simp [silent c (sort c member)]

/-- What deliveries call to wake somebody, one after the other, is all that is called to wake
somebody. -/
theorem Deliveries.filter_isWake {made : List Delivered}
    (deliveries : Deliveries Delivery C m made m') (silent : ∀ c, C c → c.isWake = false) :
    (m'.calls.drop m.calls.length).filter Call.isWake = made.flatMap Delivered.wakes := by
  suffices ∃ new, m'.calls = m.calls ++ new ∧
      new.filter Call.isWake = made.flatMap Delivered.wakes by
    obtain ⟨new, after, wakes⟩ := this
    rw [after, List.drop_left, wakes]
  induction deliveries with
  | start => exact ⟨[], (List.append_nil _).symm, rfl⟩
  | quiet _ still ih =>
      obtain ⟨new, after, wakes⟩ := ih
      obtain ⟨more, grown, none⟩ := filter_isWake_of_makes still.calls silent
      refine ⟨new ++ more, by rw [grown, after, List.append_assoc], ?_⟩
      rw [List.filter_append, wakes, none, List.append_nil]
  | stage _ one ih =>
      rename_i made b c d _
      obtain ⟨new, after, wakes⟩ := ih
      obtain ⟨ready, one⟩ := one
      obtain ⟨more, grown, none⟩ :=
        filter_isWake_of_makes one.reports fun _ reports => reports.isWake
      refine ⟨new ++ (more ++ d.wakes), ?_, ?_⟩
      · rw [one.calls, grown, after]
        simp only [List.append_assoc]
      · rw [List.filter_append, List.filter_append, wakes, none, List.nil_append,
          Delivered.filter_wakes, List.flatMap_append, List.flatMap_singleton]

end Machine

/-- A scheduler that runs each VCPU on the processor of its number, and answers for
processor 0. -/
structure PinnedHost where
  up : List Nat
deriving DecidableEq

instance : Host PinnedHost where
  online host v := (host.up.contains v, host)
  running host v := (some v, host)
  currentCpu host := (0, host)
  upcallPending host _ := (false, host)
  react host _ := host

/-- The deliveries `made` of an operation, and who is woken by it. -/
structure Machine.Wakes {σ : Type} [Host σ] (config : Config) (m : Machine σ)
    (operation : Operation) (made : List Delivered) : Prop where
  /-- Nothing else puts a line on a list, raises one again or wakes anybody, and each delivery
  ends by waking the holder of its line. -/
  course : Machine.Deliveries (operation.Stage config) (Call.Between (operation.shows config)) m
    made (m.perform operation).2
  /-- The operation names the lines. -/
  lines : ∀ d ∈ made, operation.MayDeliver config d.ref
  /-- No line is delivered twice. -/
  once : (made.map (·.ref)).Nodup
  /-- The calls of the operation that wake somebody are those of the deliveries. -/
  calls : ((m.perform operation).2.calls.drop m.calls.length).filter Call.isWake =
    made.flatMap Delivered.wakes
  /-- An injection delivers its line if the line is held, or its VCPU online. -/
  injected : ∀ v line ref, operation = .inject v line → m.dist.resolve v line = .ok ref →
    ((m.dist.descriptor ref).owner = none → (m.online v).1 = true) → made.map (·.ref) = [ref]
  /-- An operation that fails has delivered nothing. -/
  failed : ∀ failure, (m.perform operation).1 = .error failure → made = []

namespace Machine

variable {σ : Type} [Host σ]

/-- An injection that reaches its line delivers it, and nothing else: a VCPU is woken, and that
happens for deliveries alone. -/
theorem map_ref_of_inject {config : Config} {m : Machine σ} (consistent : Consistent m.dist)
    {v line : Nat} {ref : LineRef} (resolved : m.dist.resolve v line = .ok ref)
    (reaches : (m.dist.descriptor ref).owner = none → (m.online v).1 = true)
    {made : List Delivered}
    (lines : ∀ d ∈ made, (Operation.inject v line).MayDeliver config d.ref)
    (once : (made.map (·.ref)).Nodup)
    (calls : ((m.inject v line).2.calls.drop m.calls.length).filter Call.isWake =
      made.flatMap Delivered.wakes) : made.map (·.ref) = [ref] := by
  obtain ⟨cpu?, one⟩ := delivery_inject consistent resolved reaches
  have wakes := Deliveries.filter_isWake (C := fun _ => False) (.stage .start one)
    (fun _ => False.elim)
  obtain ⟨-, number, seen, -⟩ := Distributor.found_of_resolve resolved
  have same : ∀ d ∈ made, d.ref = ref := by
    intro d member
    obtain ⟨seen', number'⟩ := lines d member
    exact LineRef.eq_of_seenBy seen' seen ((List.mem_singleton.1 number').trans number.symm)
  match made, calls, once, same with
  | [], calls, _, _ =>
      rw [wakes] at calls
      cases calls
  | [d], _, _, same => rw [List.map_singleton, same d List.mem_cons_self]
  | d :: d' :: rest, _, once, same =>
      have twice : d.ref = d'.ref := (same d (by simp)).trans (same d' (by simp)).symm
      simp [twice] at once

/-- After every history, each delivery of an operation wakes the holder of its line, and
nobody is woken otherwise. -/
theorem wakes_run {config : Config} {host : σ} {m : Machine σ}
    (started : Machine.start config host = .ok m) (operations : List Operation)
    (operation : Operation) : ∃ made, (m.run operations).Wakes config operation made := by
  have settings : (m.run operations).dist.config = config :=
    congrArg (·.1) (shape_run started operations)
  have consistent := consistent_run started operations
  have bounded := bounded_run started operations
  generalize m.run operations = s at settings consistent bounded ⊢
  obtain ⟨made, course, once, lines⟩ := settings ▸ delivering_perform consistent operation
  have begun : Deliveries Delivery (Call.Between (operation.shows config)) s made
      (s.perform operation).2 :=
    course.refine (fun _ sort => sort) fun _ _ _ one => delivery_of_stage one
  have calls := begun.filter_isWake fun _ sort => sort.isWake
  refine ⟨made, course, lines, once, calls, ?_, fun failure answered => ?_⟩
  · rintro v line ref rfl resolved reaches
    exact map_ref_of_inject consistent resolved reaches lines once calls
  · -- A delivery wakes somebody, and a failure calls nobody but to end the domain.
    have called := ((tidy_perform bounded operation).failed failure answered).2
    rw [called, List.drop_left, failure.filter_isWake_calls] at calls
    exact Delivered.eq_nil_of_wakes calls.symm

/-- Line 40 is on the list of VCPU 1. VCPU 0 sends a software interrupt to both, and only the
processor of VCPU 1 is told; and so it is when line 40 is raised on VCPU 0. -/
theorem wakes_run_pinned :
    let config : Config := .forHardware 2 64
    let s : Machine PinnedHost := (Machine.fresh config { up := [0, 1] }).run
      [.initVcpu 0, .initVcpu 1, .inject 1 40]
    (∃ made, s.Wakes config (.write 0 0xf00 .word 0x30003) made ∧
        made.flatMap Delivered.wakes = [.unblock 0, .unblock 1, .check 1]) ∧
      ∃ made, s.Wakes config (.inject 0 40) made ∧
        made.flatMap Delivered.wakes = [.unblock 1, .check 1] := by
  intro config s
  have started : Machine.start (.forHardware 2 64) ({ up := [0, 1] } : PinnedHost) =
      .ok (.fresh (.forHardware 2 64) { up := [0, 1] }) := rfl
  obtain ⟨made, sent⟩ := wakes_run started [.initVcpu 0, .initVcpu 1, .inject 1 40]
    (.write 0 0xf00 .word 0x30003)
  obtain ⟨made', raised⟩ := wakes_run started [.initVcpu 0, .initVcpu 1, .inject 1 40]
    (.inject 0 40)
  refine ⟨⟨made, sent, ?_⟩, made', raised, ?_⟩
  · rw [← sent.calls]
    decide +kernel
  · rw [← raised.calls]
    decide +kernel

end Machine

end VirtualGic
