import ByteMachine.Main
import ByteMachine.Proofs.Outcome
import ByteMachine.Proofs.Reach
import ByteMachine.Proofs.Transition
import ByteMachine.Proofs.Invariant
import ByteMachine.Proofs.Finality
import ByteMachine.Proofs.StackEffect
import ByteMachine.Proofs.Fetch
import ByteMachine.Proofs.Confinement
import ByteMachine.Proofs.Integrity
import ByteMachine.Proofs.RoundTrip
import ByteMachine.Proofs.Budget
import ByteMachine.Proofs.Frame
import ByteMachine.Proofs.Latch
import ByteMachine.Proofs.Lifo
import ByteMachine.Proofs.Checked
import ByteMachine.Proofs.Ranges
import ByteMachine.Proofs.Trace
import ByteMachine.Proofs.Returns
import ByteMachine.Proofs.Undecodable
import ByteMachine.Proofs.Arguments
import ByteMachine.Proofs.Report
import ByteMachine.Proofs.Transcript
import ByteMachine.Proofs.Ordering
import ByteMachine.Proofs.Results
import ByteMachine.Proofs.Movement
import ByteMachine.Proofs.Operators
import ByteMachine.Proofs.Control
import ByteMachine.Proofs.Detached
import ByteMachine.Proofs.LittleEndian
import ByteMachine.Proofs.History
import ByteMachine.Proofs.Grammar
import ByteMachine.Proofs.Patching
import ByteMachine.Proofs.Readback
import ByteMachine.Proofs.Shortest
import ByteMachine.Proofs.Spelling
import ByteMachine.Proofs.Cells
