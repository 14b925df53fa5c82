import FiberLoop.Cancellation
import FiberLoop.Exit.Report
import FiberLoop.Proofs.Brackets
import FiberLoop.Proofs.Cells
import FiberLoop.Proofs.Finalizers
import FiberLoop.Proofs.Interruption
import FiberLoop.Proofs.Laws.Combinators
import FiberLoop.Proofs.Masking
import FiberLoop.Proofs.Permits.Confinement
import FiberLoop.Proofs.Redemption
import FiberLoop.Proofs.Refinement
import FiberLoop.Proofs.Spinning
import FiberLoop.Proofs.Permits.Acquiring
import FiberLoop.Proofs.Permits.Bystanders
import FiberLoop.Proofs.Permits.Exchange
import FiberLoop.Proofs.Permits.Serving
import FiberLoop.Proofs.Permits.Running
import FiberLoop.Proofs.Permits.Conservation
import FiberLoop.Proofs.Runtime.Waking
import FiberLoop.Proofs.Permits.Fairness
import FiberLoop.Proofs.Runtime.Staying
import FiberLoop.Proofs.Permits.Guards
import FiberLoop.Proofs.Permits.Guarding
import FiberLoop.Proofs.Permits.Nesting
import FiberLoop.Proofs.Permits.Exclusion
import FiberLoop.Proofs.Deferreds.WriteOnce
import FiberLoop.Proofs.Deferreds.Sourcing
import FiberLoop.Proofs.Parallel.Races
import FiberLoop.Proofs.Parallel.Pairings
import FiberLoop.Proofs.Parallel.Orphans
import FiberLoop.Proofs.Queues.Accounting
import FiberLoop.Proofs.Queues.Pairing
import FiberLoop.Proofs.Queues.Overflowing
import FiberLoop.Proofs.Queues.Presenting
import FiberLoop.Proofs.Loop.Ordering
import FiberLoop.Proofs.Turns.RoundRobin
import FiberLoop.Proofs.Runtime.Stacks
import FiberLoop.Proofs.Evaluation.Synchronous
import FiberLoop.Proofs.Parallel.Sequencing
