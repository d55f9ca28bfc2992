import Reclaim.Proofs.Arena.Counting
import Reclaim.Proofs.Arena.Scan
import Reclaim.Proofs.Arena.Search

/-! A counter over an arena. Its operations do what those of a counter do, and stop only when a count is too
large; the discovery numbers last as long as fewer values are tracked than there are numbers. -/

set_option autoImplicit false

namespace Reclaim

structure Collector where
  strategy : Strategy := .markSweep
  eager : Bool := false
  arena : Arena := {}
  components : Option (List Component) := none

structure Outcome where
  collector : Collector
  heap : Heap
  result : Except LedgerError Nat
  removed : List (Ref × Nat) := []

namespace Collector

def extend (collector : Collector) (arena : Arena) (item : Value) : Collector :=
  let added := if (collector.arena.slotOf? item).isSome then none else arena.slotOf? item
  { collector with
    arena
    components := collector.components.map (· ++ added.toList.map ([·])) }

def register (collector : Collector) (item : Value) : Checked Collector := do
  let arena ← collector.arena.register item
  return collector.extend arena item

def addHolds (collector : Collector) (item : Value) (count : Nat) :
    Checked (Except LedgerError Collector) := do
  let arena ← collector.arena.addHolds item count
  return .ok (collector.extend arena item)

def removeHold (collector : Collector) (item : Value) : Checked (Except LedgerError Collector) := do
  let result ← collector.arena.removeHold item
  return result.map fun arena => { collector with arena }

def addEdge (collector : Collector) (item owner : Value) : Checked (Except LedgerError Collector) := do
  let result ← collector.arena.addEdge item owner
  return result.map fun arena => { collector with arena, components := none }

def removeEdge (collector : Collector) (item owner : Value) : Checked (Except LedgerError Collector) := do
  let result ← collector.arena.removeEdge item owner
  return result.map fun arena => { collector with arena, components := none }

def settleByMarking (collector : Collector) (heap : Heap) : Checked Outcome := do
  let dead ← collector.arena.unmarked heap
  match ← collector.arena.reclaim heap dead with
  | .error error => return { collector, heap, result := .error error }
  | .ok ⟨arena, heap, removed⟩ =>
    return { collector := { collector with arena }, heap, result := .ok arena.references, removed }

def settleByComponents (collector : Collector) (heap : Heap) : Checked Outcome := do
  let arena := collector.arena
  let components ← (match collector.components with
    | some components => pure components
    | none => arena.ledger.ownerGraph.descend arena.slots.size)
  let start : Scan := { clearance := { arena, heap }, black := .replicate arena.slots.size false }
  match ← start.run components with
  | (⟨⟨arena, heap, removed⟩, _, _⟩, some error) =>
    return { collector := { collector with arena, components := none }, heap, result := .error error, removed }
  | (⟨⟨arena, heap, removed⟩, _, kept⟩, none) =>
    return { collector := { collector with arena, components := some kept }
             heap, result := .ok arena.references, removed }

def cleared (collector : Collector) : Collector :=
  { collector with arena := { collector.arena with pending := ∅ } }

def settle (collector : Collector) (heap : Heap) : Checked Outcome :=
  if !collector.arena.pending.isEmpty || collector.eager then
    match collector.strategy with
    | .markSweep => collector.cleared.settleByMarking heap
    | .incremental => collector.cleared.settleByComponents heap
  else
    return { collector, heap, result := .ok collector.arena.references }

structure Shows (collector : Collector) (counter : Counter) : Prop where
  strategy : collector.strategy = counter.strategy
  eager : collector.eager = counter.eager
  arena : collector.arena.Shows counter.ledger
  components : collector.components = counter.components

/-- A result of the collector is one of the counter. Only a computation that is aborted has none. -/
def Answers (result : Except LedgerError Collector) (counted : Except Failure Counter) : Prop :=
  Alike Shows (result.mapError .refused) counted

end Collector

structure Outcome.Shows (outcome : Outcome) (settlement : Settlement) : Prop where
  collector : outcome.collector.Shows settlement.counter
  heap : outcome.heap = settlement.heap
  covers : settlement.heap.Covers
  result : outcome.result = settlement.result
  removed : outcome.removed = settlement.removed

theorem Ledger.size_occupied (ledger : Ledger) : ledger.occupied.size = ledger.trackedCount := by
  have distinct : ledger.entries.keys.Pairwise fun first second => ¬compare first second = .eq :=
    Std.ExtTreeMap.distinct_keys
  rw [occupied, trackedCount, Std.ExtTreeSet.size_ofList distinct, Std.ExtTreeMap.length_keys]

namespace Collector

variable {collector : Collector} {counter : Counter} {heap : Heap} {few : Prop} {arena : Arena} {ledger : Ledger}

namespace Shows

theorem extend (shows : collector.Shows counter) (added : arena.Shows ledger) (item : Value) :
    (collector.extend arena item).Shows (counter.extend ledger item) where
  strategy := shows.strategy
  eager := shows.eager
  arena := added
  components := by
    unfold Collector.extend Counter.extend Ledger.isTracked
    rw [shows.components, shows.arena.slotOf?, added.slotOf?]

theorem register (shows : collector.Shows counter) (valid : counter.ledger.Valid) (item : Value) :
    Safe few (·.Shows (counter.register item)) (collector.register item) :=
  (shows.arena.register valid item).bind fun _ added => shows.extend added item

theorem addHolds (shows : collector.Shows counter) (valid : counter.ledger.Valid) (item : Value) (count : Nat) :
    Safe few (Answers · (counter.addHolds item count)) (collector.addHolds item count) := by
  refine (shows.arena.addHolds valid item count).bind ?_
  rintro arena ⟨ledger, held, added⟩
  unfold Counter.addHolds
  rw [held]
  exact shows.extend added item

theorem change {result : Except LedgerError Arena} {changed : Except Failure Ledger}
    {first second : Option (List Component)} (shows : collector.Shows counter) (cached : first = second)
    (alike : Alike Arena.Shows (result.mapError .refused) changed) :
    Answers (result.map fun arena => { collector with arena, components := first })
      (changed.map fun ledger => { counter with ledger, components := second }) := by
  cases result with
  | error error =>
    cases changed with
    | error failure => exact alike
    | ok ledger => cases alike
  | ok arena =>
    cases changed with
    | error failure => cases alike
    | ok ledger => exact ⟨shows.strategy, shows.eager, alike, cached⟩

theorem removeHold (shows : collector.Shows counter) (valid : counter.ledger.Valid) (item : Value) :
    Safe few (Answers · (counter.removeHold item)) (collector.removeHold item) :=
  (shows.arena.removeHold valid item).bind fun _ alike =>
    shows.change shows.components (alike.mapError Failure.refused)

theorem addEdge (shows : collector.Shows counter) (valid : counter.ledger.Valid) (item owner : Value) :
    Safe few (Answers · (counter.addEdge item owner)) (collector.addEdge item owner) :=
  (shows.arena.addEdge valid item owner).bind fun _ alike => shows.change rfl alike

theorem removeEdge (shows : collector.Shows counter) (valid : counter.ledger.Valid) (item owner : Value) :
    Safe few (Answers · (counter.removeEdge item owner)) (collector.removeEdge item owner) :=
  (shows.arena.removeEdge valid item owner).bind fun _ alike =>
    shows.change rfl (alike.mapError Failure.refused)

theorem settleByMarking (shows : collector.Shows counter) (valid : counter.ledger.Valid) (covers : heap.Covers) :
    Safe few (·.Shows (counter.settleByMarking heap)) (collector.settleByMarking heap) := by
  unfold Collector.settleByMarking Counter.settleByMarking
  refine (shows.arena.unmarked valid).bind ?_
  rintro dead rfl
  refine (shows.arena.reclaim covers _).bind fun result alike => ?_
  obtain ⟨error, rfl, refused⟩ | ⟨clearance, removal, rfl, reclaimed, left⟩ := alike.cases
  · rw [refused]
    exact ⟨shows, rfl, covers, rfl, rfl⟩
  · rw [reclaimed]
    exact ⟨⟨shows.strategy, shows.eager, left.arena, shows.components⟩, left.heap, left.covers,
      congrArg Except.ok left.arena.references, left.removed⟩

theorem walked (shows : collector.Shows counter) :
    Safe (counter.ledger.trackedCount < maxNumber)
      (· = counter.components.getD counter.ledger.ownerGraph.components)
      (match collector.components with
        | some components => pure components
        | none => collector.arena.ledger.ownerGraph.descend collector.arena.slots.size : Checked (List Component)) := by
  rw [shows.components, shows.arena.ledger_eq]
  cases counter.components with
  | some components => exact rfl
  | none =>
    have bounded : ∀ slot ∈ counter.ledger.ownerGraph.nodes, slot < collector.arena.slots.size := fun _ =>
      shows.arena.lt
    have counted : counter.ledger.ownerGraph.nodes.size = counter.ledger.trackedCount :=
      counter.ledger.size_occupied
    exact counted ▸ Digraph.safe_descend bounded

theorem settleByComponents (shows : collector.Shows counter) (valid : counter.ledger.Valid)
    (lists : counter.Lists) (covers : heap.Covers) :
    Safe (counter.ledger.trackedCount < maxNumber) (·.Shows (counter.settleByComponents heap))
      (collector.settleByComponents heap) := by
  -- At first nothing is black and nothing has been kept.
  have start : Scan.Shows
      { clearance := { arena := collector.arena, heap }, black := .replicate collector.arena.slots.size false }
      { removal := { ledger := counter.ledger, heap } } :=
    { clearance := ⟨shows.arena, rfl, covers, rfl⟩
      below := fun slot occupied => by
        obtain ⟨entry, found⟩ := Option.isSome_iff_exists.mp occupied
        simpa using Arena.occupant?_lt ((shows.arena.entries slot).trans found)
      black_iff := fun slot => by simp [Array.getElem?_replicate]
      kept := rfl }
  unfold Collector.settleByComponents Counter.settleByComponents
  refine shows.walked.bind ?_
  rintro components rfl
  have listing : Sweep.Listing { removal := { ledger := counter.ledger, heap } }
      (counter.components.getD counter.ledger.ownerGraph.components) := ⟨valid, lists.walked⟩
  have walks : Safe (counter.ledger.trackedCount < maxNumber) _ _ := start.run listing fun slot => by simp
  simp only
  cases ended : Sweep.run _ (counter.components.getD counter.ledger.ownerGraph.components) with
  | mk sweep stopped =>
    rw [ended] at walks
    refine walks.bind ?_
    rintro ⟨⟨⟨arena, heap, removed⟩, black, kept⟩, error⟩ ⟨rfl, last⟩
    have left := last.clearance
    cases error with
    | none =>
      exact ⟨⟨shows.strategy, shows.eager, left.arena, congrArg some last.kept⟩, left.heap, left.covers,
        congrArg Except.ok left.arena.references, left.removed⟩
    | some error =>
      exact ⟨⟨shows.strategy, shows.eager, left.arena, rfl⟩, left.heap, left.covers, rfl, left.removed⟩

theorem cleared (shows : collector.Shows counter) : collector.cleared.Shows counter.cleared :=
  ⟨shows.strategy, shows.eager, { shows.arena with pending := rfl }, shows.components⟩

theorem settle (shows : collector.Shows counter) (valid : counter.ledger.Valid)
    (lists : counter.Lists) (covers : heap.Covers) :
    Safe (counter.ledger.trackedCount < maxNumber) (·.Shows (counter.settle heap)) (collector.settle heap) := by
  have idle : counter.cleared.ledger.Valid := valid.unmark fun _ member => nomatch member
  unfold Collector.settle Counter.settle Ledger.hasPending
  rw [shows.arena.pending, shows.eager]
  split
  next =>
    show Safe _ (fun outcome : Outcome => outcome.Shows (match counter.strategy with
      | .markSweep => counter.cleared.settleByMarking heap
      | .incremental => counter.cleared.settleByComponents heap)) _
    rw [shows.strategy]
    cases counter.strategy with
    | markSweep => exact shows.cleared.settleByMarking idle covers
    | incremental => exact shows.cleared.settleByComponents idle lists.cleared covers
  next =>
    exact ⟨⟨shows.strategy, shows.eager, shows.arena, shows.components⟩, rfl, covers,
      congrArg Except.ok shows.arena.references, rfl⟩

end Shows

end Collector

end Reclaim
