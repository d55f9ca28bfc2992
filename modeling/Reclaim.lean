import Reclaim.Main
import Reclaim.World
import Reclaim.Proofs.Graph.Marking
import Reclaim.Proofs.Graph.Decomposition
import Reclaim.Proofs.Graph.Components
import Reclaim.Proofs.Graph.Partition
import Reclaim.Proofs.Ledger.Valid
import Reclaim.Proofs.Ledger.Book
import Reclaim.Proofs.Collect.Agreement
import Reclaim.Proofs.Ledger.Coverage
import Reclaim.Proofs.Replay.Agreement
import Reclaim.Proofs.Replay.Eagerness
import Reclaim.Proofs.World.Caching
import Reclaim.Proofs.Ledger.Total
import Reclaim.Proofs.Plain.Machine
import Reclaim.Proofs.Plain.Abstraction
import Reclaim.Proofs.World.Payments
import Reclaim.Proofs.Plain.Lines
import Reclaim.Proofs.Plain.Settling
import Reclaim.Proofs.Plain.Refinement
import Reclaim.Proofs.Replay.Conservation
import Reclaim.Proofs.Replay.Comparison
import Reclaim.Proofs.Plain.Delay
import Reclaim.Proofs.Replay.Timing
import Reclaim.Proofs.Ledger.Shedding
import Reclaim.Proofs.Collect.Shedding
import Reclaim.Proofs.World.Unpaired
import Reclaim.Proofs.World.Failure
import Reclaim.Proofs.World.Accounting
import Reclaim.Proofs.World.Survival
import Reclaim.Proofs.Ledger.Edges
import Reclaim.Proofs.World.Tally
import Reclaim.Proofs.World.Idempotence
import Reclaim.Proofs.Arena.InStep
import Reclaim.Proofs.Replay.Overdraft
import Reclaim.Proofs.Replay.Naming
import Reclaim.Proofs.Replay.Safety
import Reclaim.Proofs.Graph.Recursion
import Reclaim.Proofs.Arena.Recursion
import Reclaim.Proofs.Script.Rendering
import Reclaim.Proofs.Identity.Replay
import Reclaim.Proofs.World.Rentals
import Reclaim.Proofs.Script.Composition
import Reclaim.Proofs.World.Counting
import Reclaim.Proofs.World.Batch
import Reclaim.Proofs.World.Tracing
import Reclaim.Proofs.World.Coloring
import Reclaim.Proofs.World.Mutation
