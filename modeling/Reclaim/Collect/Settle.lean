import Reclaim.Collect.Counter
import Reclaim.Collect.Journal
import Reclaim.Graph.Marking
import Reclaim.Ledger.Removal

/-! Settling: find the dead values, remove them, and return the total of the references left.
A settle that has nothing to examine runs no pass. Marking follows the contents of containers;
the incremental strategy follows the recorded edges, from the components that own to those that
are owned. -/

set_option autoImplicit false

namespace Reclaim

def Ledger.contentGraph (ledger : Ledger) (heap : Heap) : Digraph where
  nodes := ledger.occupied
  successors := ledger.childSlots heap

def Ledger.ownerGraph (ledger : Ledger) : Digraph where
  nodes := ledger.occupied
  successors slot := (ledger.entries[slot]?.map (·.owners.keys)).getD []

def Ledger.dead (ledger : Ledger) (heap : Heap) : List Slot :=
  (ledger.contentGraph heap).unreached ledger.roots

/-- The state of a walk over components: the slots found live, the components kept so far,
and what the removals before have left. -/
structure Sweep where
  removal : Removal
  live : NodeSet := ∅
  kept : List Component := []

namespace Sweep

def isLive (sweep : Sweep) (component : Component) : Bool :=
  component.any fun slot =>
    match sweep.removal.ledger.entries[slot]? with
    | none => false
    | some entry => entry.held > 0 || entry.owners.keys.any (sweep.live.contains ·)

def resolve (sweep : Sweep) (component : Component) : Except LedgerError Sweep :=
  if sweep.isLive component then
    .ok { sweep with live := sweep.live.insertMany component, kept := sweep.kept ++ [component] }
  else
    (sweep.removal.ledger.reclaim sweep.removal.heap component).map fun removal =>
      { sweep with removal := { removal with removed := sweep.removal.removed ++ removal.removed } }

def run (sweep : Sweep) : List Component → Sweep × Option LedgerError
  | [] => (sweep, none)
  | component :: rest =>
    match sweep.resolve component with
    | .error error => (sweep, some error)
    | .ok next => next.run rest

end Sweep

/-- What a settle leaves behind: its answer, and what it removed on the way, in order, each
value with the number of its children when it was removed. -/
structure Settlement where
  counter : Counter
  heap : Heap
  result : Except LedgerError Nat
  removed : List (Ref × Nat) := []
  log : List LogRecord := []

def Settlement.announced (settlement : Settlement) : Option Stats :=
  match settlement.result with
  | .ok _ => if settlement.counter.stats.collected then some settlement.counter.stats else none
  | .error _ => none

namespace Counter

def skip (counter : Counter) (heap : Heap) : Settlement :=
  let ledger := counter.ledger
  let stats : Stats := { retained := ledger.trackedCount, total := ledger.total }
  { counter := { counter with stats }, heap, result := .ok ledger.total }

def finish (counter : Counter) (removal : Removal) (rebuilt : Bool) (log : List LogRecord) :
    Settlement :=
  let ledger := removal.ledger
  let stats : Stats :=
    { removed := removal.removed.length, retained := ledger.trackedCount, total := ledger.total,
      collected := true, rebuilt }
  { counter := { counter with ledger, stats }
    heap := removal.heap
    result := .ok ledger.total
    removed := removal.removed
    log := log ++ [.settled counter.strategy stats] }

def settleByMarking (counter : Counter) (heap : Heap) : Settlement :=
  match counter.ledger.reclaim heap (counter.ledger.dead heap) with
  | .error error => { counter, heap, result := .error error }
  | .ok removal => counter.finish removal false []

def settleByComponents (counter : Counter) (heap : Heap) : Settlement :=
  let rebuilt := counter.components.isNone
  let components := counter.components.getD counter.ledger.ownerGraph.components
  let log := if rebuilt then
    [.rebuilt components.length counter.ledger.trackedCount] else []
  let start : Sweep := { removal := { ledger := counter.ledger, heap } }
  match start.run components with
  | (sweep, some error) =>
    -- The components before the one that fails are removed, and the cache is lost.
    { counter := { counter with ledger := sweep.removal.ledger, components := none }
      heap := sweep.removal.heap
      result := .error error
      removed := sweep.removal.removed
      log }
  | (sweep, none) =>
    { counter with components := some sweep.kept }.finish sweep.removal rebuilt log

def settle (counter : Counter) (heap : Heap) : Settlement :=
  if counter.ledger.hasPending || counter.eager then
    -- Also a pass that fails leaves nothing pending.
    let counter := { counter with ledger := { counter.ledger with pending := ∅ } }
    match counter.strategy with
    | .markSweep => counter.settleByMarking heap
    | .incremental => counter.settleByComponents heap
  else
    counter.skip heap

end Counter

end Reclaim
