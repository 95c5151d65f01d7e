/-
# Proofs.History — histories from the start of a machine

A machine starts with an accepted configuration, no VCPU state and one note. What its
start has and what every act keeps holds after any history (`run_kept`).

`SteadyHost` is a scheduler whose answers never change. It is there to be started on:
statements about all hosts are tried on it.
-/
import VirtualGic.Proofs.Perform

namespace VirtualGic

set_option autoImplicit false

namespace Distributor

theorem vcpu?_create (config : Config) (v : Nat) : (create config).vcpu? v = none := by
  simp only [create, vcpu?, Array.getElem?_replicate]
  split <;> rfl

theorem eq_idle_of_create {config : Config} {ref : LineRef} {p : Descriptor}
    (found : (create config).descriptor? ref = some p) : p = Descriptor.idle ref.number := by
  cases ref with
  | banked v line => simp [descriptor?, vcpu?_create] at found
  | shared index =>
      simp only [create, descriptor?, Array.getElem?_ofFn] at found
      split at found
      · exact (Option.some.inj found).symm
      · cases found

end Distributor

namespace Machine

variable {σ : Type}

/-- A machine that has just started. -/
def fresh (config : Config) (host : σ) : Machine σ where
  dist := Distributor.create config
  host
  trace := [.note (.created config.vcpus config.spis config.base)]

theorem start_eq_ok_iff {config : Config} {host : σ} {m : Machine σ} :
    Machine.start config host = .ok m ↔ config.validate = .ok () ∧ m = fresh config host := by
  unfold start
  cases config.validate with
  | error failure => simp
  | ok accepted =>
      constructor
      · rintro ⟨⟩
        exact ⟨rfl, rfl⟩
      · rintro ⟨-, rfl⟩
        rfl

variable [Host σ]

/-- What every act keeps, every history keeps. -/
theorem run_kept {P : Machine σ → Prop}
    (keep : ∀ {m a m'}, Step m a m' → P m → P m') {m : Machine σ} (start : P m)
    (operations : List Operation) : P (m.run operations) :=
  run_induction (P := P)
    (fun m operation before => (perform_steps m operation).kept (fun _ step => keep step) before)
    start operations

end Machine

/-! ## A host to start on -/

/-- A scheduler whose answers never change. -/
structure SteadyHost where
  /-- The VCPUs that are up. -/
  up : List Nat
  /-- The VCPUs whose upcall is latched. -/
  latched : List Nat := []
deriving DecidableEq

instance : Host SteadyHost where
  online host v := (host.up.contains v, host)
  running host _ := (none, host)
  currentCpu host := (0, host)
  upcallPending host v := (host.latched.contains v, host)
  react host _ := host

end VirtualGic
