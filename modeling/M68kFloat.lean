import M68kFloat.Machine.Execute
import M68kFloat.Memory
import M68kFloat.Query
import M68kFloat.Proofs.Machine.Steps
import M68kFloat.Proofs.Machine.Refusal
import M68kFloat.Proofs.Machine.Acceptance
import M68kFloat.Proofs.Machine.Frame
import M68kFloat.Proofs.Machine.Arithmetic
import M68kFloat.Proofs.Machine.Runs
import M68kFloat.Proofs.Machine.Status
import M68kFloat.Proofs.Memory.Bytes
import M68kFloat.Proofs.Memory.Operand
import M68kFloat.Proofs.RegisterList.Transfer
import M68kFloat.Proofs.RegisterList.Restore
import M68kFloat.Proofs.Operand.Fetching
import M68kFloat.Proofs.Operand.RoundTrip
import M68kFloat.Proofs.Operand.Copy
import M68kFloat.Proofs.Binary.Value
import M68kFloat.Proofs.Binary.Rounding
import M68kFloat.Proofs.Binary.Widening
import M68kFloat.Proofs.Binary.Comparison
import M68kFloat.Proofs.Machine.Calls
import M68kFloat.Proofs.Operand.Access
import M68kFloat.Proofs.Machine.Instruction
import M68kFloat.Proofs.Machine.Moves
import M68kFloat.Proofs.Machine.Execution
import M68kFloat.Proofs.Machine.Cycles
import M68kFloat.Proofs.Machine.Length
import M68kFloat.Proofs.Machine.Order
import M68kFloat.Proofs.Machine.Footprint
import M68kFloat.Proofs.Machine.Observer
import M68kFloat.Proofs.Machine.Indistinct
import M68kFloat.Proofs.Machine.Interference
import M68kFloat.Proofs.Machine.AddressBits
import M68kFloat.Proofs.Machine.Checked
import M68kFloat.Proofs.Machine.Passing
import M68kFloat.Proofs.Machine.Totality
import M68kFloat.Proofs.Binary.Reflexivity
import M68kFloat.Proofs.Binary.Testing
import M68kFloat.Proofs.Operand.Address
import M68kFloat.Proofs.Operand.Indexing
import M68kFloat.Proofs.Operand.Interchange
import M68kFloat.Proofs.Operand.Stack
import M68kFloat.Proofs.Binary.Nearest
import M68kFloat.Proofs.Binary.Single
import M68kFloat.Proofs.Binary.Truncation
import M68kFloat.Proofs.Binary.Narrowing
import M68kFloat.Proofs.Machine.Branching
import M68kFloat.Proofs.RegisterList.Save
import M68kFloat.Proofs.Binary.Loading
import M68kFloat.Proofs.Machine.Accumulation
import M68kFloat.Proofs.Memory.Accesses
import M68kFloat.Proofs.Text.Paths
import M68kFloat.Proofs.Text.Numerals
import M68kFloat.Proofs.Text.Faults
import M68kFloat.Proofs.Text.Operations
import M68kFloat.Proofs.Machine.Messages
import M68kFloat.Proofs.Text.Lines
import M68kFloat.Proofs.Machine.Accounting
