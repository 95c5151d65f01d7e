import VirtualGic.Access.Decoded
import VirtualGic.Access.Read
import VirtualGic.Access.Width
import VirtualGic.Access.Write
import VirtualGic.Bits.Field
import VirtualGic.Bits.Lane
import VirtualGic.Bits.SetBits
import VirtualGic.Config
import VirtualGic.Delivery.Completion
import VirtualGic.Delivery.Holder
import VirtualGic.Delivery.Injection
import VirtualGic.Delivery.Masking
import VirtualGic.Delivery.Software
import VirtualGic.Failure
import VirtualGic.Lifecycle
import VirtualGic.Machine.Basic
import VirtualGic.Machine.Note
import VirtualGic.Operation
import VirtualGic.Register.Contents
import VirtualGic.Register.Frame
import VirtualGic.SpinLock
import VirtualGic.State.Descriptor
import VirtualGic.State.Distributor
import VirtualGic.State.Inflight
import VirtualGic.State.Rank
import VirtualGic.State.Vcpu
import VirtualGic.Text.Hex
import VirtualGic.Version
import VirtualGic.Proofs.Act
import VirtualGic.Proofs.Course
import VirtualGic.Proofs.Perform
import VirtualGic.Proofs.Agreement
import VirtualGic.Proofs.Raised
import VirtualGic.Proofs.Waiting
import VirtualGic.Proofs.EnableBitmap
import VirtualGic.Proofs.Order
import VirtualGic.Proofs.RegisterFile
import VirtualGic.Proofs.Registers
import VirtualGic.Proofs.Reading
import VirtualGic.Proofs.Bystander
import VirtualGic.Proofs.Apart
import VirtualGic.Proofs.Beside
import VirtualGic.Proofs.NoTrace
import VirtualGic.Proofs.Calls
import VirtualGic.Proofs.Faultless
import VirtualGic.Proofs.Refusal
import VirtualGic.Proofs.Idle
import VirtualGic.Proofs.Justified
import VirtualGic.Proofs.Isolation
import VirtualGic.Proofs.Addressing
import VirtualGic.Proofs.Deliveries
import VirtualGic.Proofs.Wakes
import VirtualGic.Proofs.Offline
import VirtualGic.Proofs.Dequeuing
import VirtualGic.Proofs.Handover
import VirtualGic.Proofs.Steady
import VirtualGic.Proofs.Dispatch
import VirtualGic.Proofs.Targeting
import VirtualGic.Proofs.HandingBack
import VirtualGic.Proofs.Firm
import VirtualGic.Proofs.Commuting
import VirtualGic.Proofs.Enabling
import VirtualGic.Proofs.Masks
import VirtualGic.Proofs.RankIndex
import VirtualGic.Proofs.StableQueue
import VirtualGic.Proofs.Validation
import VirtualGic.Proofs.Boundary
import VirtualGic.Proofs.Backing
import VirtualGic.Proofs.Switching
import VirtualGic.Proofs.Routing
import VirtualGic.Proofs.Reserve
import VirtualGic.Proofs.Exclusion
