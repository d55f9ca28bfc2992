import Reclaim.Collect.Strategy
import Reclaim.Graph.Components
import Reclaim.Ledger.Counting

/-! A counter is a ledger with a strategy. Every change of edges drops the cached components,
and a value that becomes tracked while they are cached is a component of its own at their end,
because nothing owns it yet. Only the incremental strategy ever caches components. -/

set_option autoImplicit false

namespace Reclaim

/-- An eager counter runs a pass at every settle, also when nothing is pending. -/
structure Counter where
  strategy : Strategy := .markSweep
  eager : Bool := false
  ledger : Ledger := {}
  components : Option (List Component) := none
  stats : Stats := {}

namespace Counter

/-- Take over a ledger in which at most one more value is tracked than before. -/
def extend (counter : Counter) (ledger : Ledger) (item : Value) : Counter :=
  let added := if counter.ledger.isTracked item then none else ledger.slotOf? item
  { counter with
    ledger
    components := counter.components.map (· ++ added.toList.map ([·])) }

def relink (counter : Counter) (ledger : Ledger) : Counter :=
  { counter with ledger, components := none }

def register (counter : Counter) (item : Value) : Counter :=
  counter.extend (counter.ledger.register item) item

def addHolds (counter : Counter) (item : Value) (count : Nat) : Except Failure Counter :=
  ((counter.ledger.addHolds item count).mapError .aborted).map (counter.extend · item)

def removeHold (counter : Counter) (item : Value) : Except Failure Counter :=
  ((counter.ledger.removeHold item).mapError .refused).map ({ counter with ledger := · })

def addEdge (counter : Counter) (item owner : Value) : Except Failure Counter :=
  (counter.ledger.addEdge item owner).map counter.relink

def removeEdge (counter : Counter) (item owner : Value) : Except Failure Counter :=
  ((counter.ledger.removeEdge item owner).mapError .refused).map counter.relink

end Counter

end Reclaim
