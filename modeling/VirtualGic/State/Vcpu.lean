/-
# State.Vcpu — what belongs to one VCPU

Each VCPU has the rank and the descriptors of its 32 private lines and the list of
lines inflight on it. A new VCPU receives its private lines alone.
-/
import VirtualGic.State.Descriptor
import VirtualGic.State.Inflight
import VirtualGic.State.Rank

namespace VirtualGic

set_option autoImplicit false

/-- The state of one VCPU. -/
structure Vcpu where
  /-- The registers of the private lines. -/
  rank : Rank
  /-- The descriptors of the private lines. -/
  lines : Vector Descriptor 32
  /-- The lines raised on the VCPU. -/
  inflight : Inflight
deriving DecidableEq

namespace Vcpu

/-- The rank of VCPU `id`, in which every target byte names `id` alone. -/
def privateRank (id : Nat) : Rank :=
  { Rank.zero with targets := Vector.replicate 8 (Word.splat (BitVec.twoPow 8 id)) }

/-- The state of VCPU `id` before anything is raised, with room for `capacity` lines
inflight. Target masks have eight bits, so an `id` past them is a fault. -/
def create (id capacity : Nat) : Except Fault Vcpu :=
  if id < maxVcpus then
    .ok {
      rank := privateRank id
      lines := Vector.ofFn fun line => Descriptor.idle line
      inflight := Inflight.empty capacity }
  else .error .arithmeticOverflow

end Vcpu

end VirtualGic
