/-
# Proofs.Backing — what is behind a line

A line is purely virtual or backed by a physical interrupt. `Distributor.backing?` is what is
behind it, and two operations are about that: routing the line and unrouting it, from any VCPU
that sees it. Releasing a VCPU takes its private lines away with what is behind them.

Whatever else happens, the backing stays (`backing?_run`). This is shown act by act: few acts
change a descriptor, and of those only two reports touch what backs it (`Act.Rewires`).
-/
import VirtualGic.Proofs.Perform

namespace VirtualGic

set_option autoImplicit false

/-- What is behind a line, an interrupt or none, if the line has a descriptor. -/
def Distributor.backing? (d : Distributor) (ref : LineRef) : Option (Option Nat) :=
  (d.descriptor? ref).map (·.phys)

theorem Distributor.backing?_of_descriptor? {d : Distributor} {ref : LineRef} {p : Descriptor}
    (found : d.descriptor? ref = some p) : d.backing? ref = some p.phys := by
  rw [backing?, found, Option.map_some]

/-- Whether the line is a private one of VCPU `v`. -/
def LineRef.PrivateTo (v : Nat) : LineRef → Prop
  | banked w _ => w = v
  | shared _ => False

theorem Descriptor.phys_handBack (holder : Nat) (p : Descriptor) :
    (p.handBack holder).phys = p.phys := by
  simp only [handBack, release, settle]
  split <;> rfl

/-! ## Acts -/

namespace Act

/-- The acts after which something else may be behind a line. -/
def Rewires (ref : LineRef) : Act → Prop
  | touch other (.routed _) | touch other .unrouted => other = ref
  | release v => ref.PrivateTo v
  | _ => False

variable {a : Act} {d : Distributor} {ref : LineRef}

theorem Idles.not_rewires (idles : a.Idles) : ¬ a.Rewires ref := by
  cases a <;> first | exact id | exact idles.elim

theorem Enables.not_rewires {S : LineRef → Prop} (enables : a.Enables S) : ¬ a.Rewires ref := by
  cases a <;> first | exact id | exact enables.elim

theorem Disables.not_rewires {S : LineRef → Prop} (disables : a.Disables S) :
    ¬ a.Rewires ref := by
  cases a with
  | touch other report => cases report <;> first | exact id | exact disables.elim
  | release => exact disables.elim
  | _ => exact id

theorem phys_of_change? {f : Descriptor → Descriptor} (change : a.change? = some (ref, f))
    (spares : ¬ a.Rewires ref) (p : Descriptor) : (f p).phys = p.phys := by
  cases a with
  | touch other report =>
      cases change
      cases report with
      | routed | unrouted => exact absurd rfl spares
      | _ => rfl
  | unlink holder other =>
      cases change
      exact p.phys_handBack holder
  | enable | retrigger | link | keep =>
      cases change
      rfl
  | _ => cases change

/-- Emptying a list changes descriptors, but not what is behind them. -/
theorem backing?_clear (d : Distributor) (v : Nat) (ref : LineRef) :
    (d.dropInflight v).backing? ref = d.backing? ref := by
  cases found : d.inflight? v with
  | none => rw [Distributor.dropInflight_of_none found]
  | some list =>
      rw [Distributor.backing?, Distributor.descriptor?_dropInflight found]
      split
      · rw [Option.map_map]
        exact Option.map_congr fun p _ => p.phys_handBack v
      · rfl

/-- A VCPU is made and released without its lines only. -/
theorem backing?_setVcpu {v : Nat} (other : ¬ ref.PrivateTo v) (state : Option Vcpu) :
    (d.setVcpu v state).backing? ref = d.backing? ref := by
  cases ref with
  | banked w line =>
      have apart : ¬ (v = w ∧ v < d.vcpus.size) := fun same => other same.1.symm
      rw [Distributor.backing?, Distributor.descriptor?_setVcpu_banked, if_neg apart]
      rfl
  | shared index => rfl

theorem backing?_apply {backing : Option Nat} (allowed : a.Allowed d) (spares : ¬ a.Rewires ref)
    (held : d.backing? ref = some backing) : (a.apply d).backing? ref = some backing := by
  rw [← held]
  cases change : a.change? with
  | some changed =>
      obtain ⟨other, f⟩ := changed
      rw [Distributor.backing?, descriptor?_apply_of_change? change]
      split
      · rename_i same
        subst same
        rw [Option.map_map]
        exact Option.map_congr fun p _ => phys_of_change? change spares p
      · rfl
  | none =>
      cases a with
      | ask | note | call | control | store =>
          rw [Distributor.backing?, Registers.descriptor?_apply (by trivial), Distributor.backing?]
      | clear v => exact backing?_clear d v ref
      | allocate v vcpu =>
          refine backing?_setVcpu (fun own => ?_) _
          cases ref with
          | banked w line =>
              -- There is something behind the line, so its VCPU is there already.
              obtain rfl : w = v := own
              rw [Distributor.backing?, Distributor.descriptor?, allowed.1] at held
              cases held
          | shared index => exact own
      | release v => exact backing?_setVcpu spares none
      | _ => cases change

end Act

/-! ## Operations and histories -/

/-- The operations after which something else may be behind a line. -/
def Operation.Rewires (ref : LineRef) : Operation → Prop
  | .routePhysical v line _ | .unroutePhysical v line => ref.Named v [line]
  | .freeVcpu v => ref.PrivateTo v
  | _ => False

theorem Register.not_rewires_of_takes {d : Distributor} {v position : Nat} {value : Word}
    {register : Register} {a : Act} {ref : LineRef}
    (takes : register.Takes d v position value a) : ¬ a.Rewires ref := by
  cases register with
  | control =>
      obtain idle | ⟨enabled, rfl⟩ := takes
      · exact idle.not_rewires
      · exact id
  | setEnable =>
      obtain ⟨f, rfl⟩ | enables := takes
      · exact id
      · exact enables.not_rewires
  | clearEnable =>
      obtain ⟨f, rfl⟩ | disables := takes
      · exact id
      · exact disables.not_rewires
  | clearActive | priority | targets | trigger =>
      obtain idle | ⟨index, f, rfl, -⟩ := takes
      · exact idle.not_rewires
      · exact id
  | softwareInterrupt => exact Act.Enables.not_rewires (Act.Delivers.enables takes)
  | _ => exact Act.Idles.not_rewires takes

theorem Act.Writes.not_rewires {d : Distributor} {v offset : Nat} {width : Width}
    {value : Word} {a : Act} {ref : LineRef} (writes : a.Writes d v offset width value) :
    ¬ a.Rewires ref := by
  obtain idle | ⟨-, group, -, takes⟩ := writes
  · exact idle.not_rewires
  · exact Register.not_rewires_of_takes takes

theorem Operation.rewires_of_takes {d : Distributor} {operation : Operation} {a : Act}
    {ref : LineRef} (takes : operation.Takes d a) (rewires : a.Rewires ref) :
    operation.Rewires ref := by
  cases operation with
  | routePhysical v line irq =>
      obtain idle | ⟨other, resolved, rfl⟩ := takes
      · exact absurd rewires idle.not_rewires
      · obtain rfl : other = ref := rewires
        exact .of_resolve resolved
  | unroutePhysical v line =>
      obtain ⟨other, resolved, rfl⟩ := takes
      obtain rfl : other = ref := rewires
      exact .of_resolve resolved
  | freeVcpu v =>
      obtain idle | rfl | rfl := takes
      · exact absurd rewires idle.not_rewires
      · exact rewires.elim
      · exact rewires
  | initVcpu v =>
      obtain idle | ⟨vcpu, rfl⟩ := takes
      · exact absurd rewires idle.not_rewires
      · exact rewires
  | clearPending v =>
      obtain idle | rfl := takes
      · exact absurd rewires idle.not_rewires
      · exact rewires
  | read | readAt | inflightLines | pendingStatus =>
      exact absurd rewires (Act.Idles.not_rewires takes)
  | inject | injectSpi | dispatchSoftware =>
      exact absurd rewires (Act.Enables.not_rewires (Act.Delivers.enables takes))
  | enableLines => exact absurd rewires takes.2.not_rewires
  | disableLines => exact absurd rewires takes.2.not_rewires
  | write => exact absurd rewires (Act.Writes.not_rewires takes)
  | writeAt =>
      obtain ⟨offset, -, writes⟩ := takes
      exact absurd rewires writes.not_rewires
  | setVisible | setActive =>
      obtain ⟨other, -, rfl⟩ := takes
      exact rewires
  | retire v line =>
      obtain ⟨other, -, takes⟩ := takes
      split at takes
      · rw [takes] at rewires
        exact rewires
      · obtain rfl | rfl := takes
        · exact rewires
        · exact rewires

namespace Machine

variable {σ : Type} {m m' : Machine σ} {ref : LineRef} {backing : Option Nat}

theorem backing?_of_steps {K : Act → Prop} (steps : Steps K m m')
    (spares : ∀ a, K a → ¬ a.Rewires ref) (held : m.dist.backing? ref = some backing) :
    m'.dist.backing? ref = some backing := by
  refine steps.kept (P := fun s => s.dist.backing? ref = some backing) ?_ held
  intro b a c kind step before
  rw [step.dist]
  exact Act.backing?_apply step.allowed (spares a kind) before

variable [Host σ]

/-- What is behind a line stays behind it, through operations that do not rewire it. -/
theorem backing?_run {operations : List Operation}
    (spares : ∀ operation ∈ operations, ¬ operation.Rewires ref)
    (held : m.dist.backing? ref = some backing) :
    (m.run operations).dist.backing? ref = some backing := by
  induction operations generalizing m with
  | nil => exact held
  | cons operation rest ih =>
      rw [run_cons]
      refine ih (fun other member => spares other (List.mem_cons_of_mem operation member)) ?_
      exact backing?_of_steps (m.perform_steps operation)
        (fun a takes rewires =>
          spares operation List.mem_cons_self (Operation.rewires_of_takes takes rewires)) held

end Machine

end VirtualGic
