import Reclaim.Collect.Settle
import Reclaim.Proofs.Identity.Counter
import Reclaim.Proofs.Ledger.Removal

/-! Settling under other identities. What decides a pass are slots, and these are the same under any
identities, so the same values are taken out in the same order. -/

set_option autoImplicit false

namespace Reclaim

variable {move : Ident → Ident} {known : Ref → Prop}

namespace Ledger

variable {ledger other : Ledger} {heap heap' : Heap} {slot : Slot} {batch : List Slot}

namespace Copies

variable (copies : ledger.Copies move other)

include copies

theorem keys : other.entries.keys = ledger.entries.keys := by
  rw [copies.entries, Std.ExtTreeMap.keys_map]

theorem occupied : other.occupied = ledger.occupied := by
  rw [Ledger.occupied, copies.keys, Ledger.occupied]

theorem roots : other.roots = ledger.roots := by
  rw [Ledger.roots, copies.entries, Std.ExtTreeMap.toList_map, List.filter_map, List.map_map]
  rfl

theorem tracked : other.tracked = ledger.tracked.map (·.rename move) := by
  rw [Ledger.tracked, copies.entries, Std.ExtTreeMap.toList_map, List.map_map, Ledger.tracked, List.map_map]
  rfl

theorem ownerGraph : other.ownerGraph = ledger.ownerGraph := by
  unfold Ledger.ownerGraph
  rw [copies.occupied]
  congr 1
  funext slot
  rw [copies.getElem?, Option.map_map]
  rfl

theorem detach (children : List Slot) (owner : Slot) :
    (ledger.detach children owner).Copies move (other.detach children owner) := by
  unfold Ledger.detach
  induction children generalizing ledger other with
  | nil => exact copies
  | cons child rest ih => exact ih (copies.update child _ fun _ => rfl)

theorem detachAll (targets : Slot → List Slot) (batch : List Slot) :
    (ledger.detachAll targets batch).Copies move (other.detachAll targets batch) := by
  unfold Ledger.detachAll
  induction batch generalizing ledger other with
  | nil => exact copies
  | cons member rest ih => exact ih (copies.detach (targets member) member)

theorem erase (slot : Slot) (id id' : Ident) : (ledger.erase slot id).Copies move (other.erase slot id') where
  entries := by
    apply Std.ExtTreeMap.ext_getElem?
    intro place
    rw [Std.ExtTreeMap.getElem?_map, getElem?_erase, getElem?_erase, copies.getElem?]
    split <;> rfl
  bound := copies.bound
  free := congrArg (slot :: ·) copies.free
  pending := congrArg (·.erase slot) copies.pending
  total := copies.total

end Copies

theorem Within.detachAll (within : ledger.Within known) (targets : Slot → List Slot) (batch : List Slot) :
    (ledger.detachAll targets batch).Within known := by
  intro slot entry found
  rw [entries_detachAll] at found
  obtain ⟨before, present, rfl⟩ := Option.map_eq_some_iff.mp found
  exact within slot before present

theorem Within.erase (within : ledger.Within known) (slot : Slot) (id : Ident) :
    (ledger.erase slot id).Within known := by
  intro place entry found
  rw [getElem?_erase] at found
  split at found
  · cases found
  · exact within place entry found

namespace Renames

variable (renames : ledger.Renames move known other)

include renames

theorem withTotal (total : Nat) : Renames move known { ledger with total } { other with total } :=
  { renames.toCopies.withTotal total with
    within := renames.within
    valid := renames.valid.withTotal
    valid' := renames.valid'.withTotal }

theorem examined : Renames move known { ledger with pending := ∅ } { other with pending := ∅ } :=
  { renames.toCopies.withPending ∅ with
    within := renames.within
    valid := renames.valid.unmark fun slot member => by simp at member
    valid' := renames.valid'.unmark fun slot member => by simp at member }

theorem detachAll (targets : Slot → List Slot) (batch : List Slot) :
    (ledger.detachAll targets batch).Renames move known (other.detachAll targets batch) :=
  { renames.toCopies.detachAll targets batch with
    within := renames.within.detachAll targets batch
    valid := renames.valid.detachAll targets batch
    valid' := renames.valid'.detachAll targets batch }

theorem erase {entry : Entry} (found : ledger.entries[slot]? = some entry) :
    (ledger.erase slot entry.item.id).Renames move known
      (other.erase slot (entry.rename move).item.id) :=
  { renames.toCopies.erase slot _ _ with
    within := renames.within.erase slot _
    valid := renames.valid.erase found
    valid' := renames.valid'.erase (by rw [renames.getElem?, found]; rfl) }

variable (heaps : heap.Renames move known heap') (apart : Apart move known)

include heaps

theorem childCountAt (slot : Slot) : other.childCountAt heap' slot = ledger.childCountAt heap slot := by
  unfold Ledger.childCountAt
  rw [renames.getElem?, Option.map_map]
  refine congrArg (·.getD 0) (Option.map_congr fun entry found => ?_)
  exact heaps.childCount (renames.within slot entry found)

theorem heldByBatch (batch : List Slot) : other.heldByBatch heap' batch = ledger.heldByBatch heap batch := by
  unfold Ledger.heldByBatch
  simp only [renames.childCountAt heaps]

include apart

theorem childSlots : other.childSlots heap' = ledger.childSlots heap := by
  funext slot
  unfold Ledger.childSlots
  rw [renames.getElem?]
  cases found : ledger.entries[slot]? with
  | none => rfl
  | some entry =>
    have here := renames.within slot entry found
    simp only [Option.map_some, Entry.rename, heaps.children here, List.filterMap_map]
    exact List.filterMap_congr fun child member =>
      renames.slotOf?_eq apart (heaps.among_children here child member)

theorem outgoing (batch : List Slot) : other.outgoing heap' batch = ledger.outgoing heap batch := by
  funext slot
  rw [Ledger.outgoing, renames.childSlots heaps apart, Ledger.outgoing]

theorem edgesMatch (batch : List Slot) : other.edgesMatch heap' batch = ledger.edgesMatch heap batch := by
  funext slot
  unfold Ledger.edgesMatch
  simp only [renames.outgoing heaps apart, renames.edgesAt]

theorem dead : other.dead heap' = ledger.dead heap := by
  unfold Ledger.dead Ledger.contentGraph
  rw [renames.childSlots heaps apart, renames.occupied, renames.roots]

end Renames

end Ledger

def renameRemoved (move : Ident → Ident) : Ref × Nat → Ref × Nat :=
  Prod.map (·.rename move) id

namespace Removal

variable {first second : Removal} {slot : Slot}

structure Renames (move : Ident → Ident) (known : Ref → Prop) (first second : Removal) : Prop where
  ledger : first.ledger.Renames move known second.ledger
  heap : first.heap.Renames move known second.heap
  removed : second.removed = first.removed.map (renameRemoved move)
  known : ∀ pair ∈ first.removed, known pair.1

namespace Renames

variable (renames : first.Renames move known second) (apart : Apart move known)

include renames apart

theorem next (slot : Slot) : (first.next slot).Renames move known (second.next slot) := by
  unfold Removal.next
  rw [renames.ledger.getElem?]
  cases found : first.ledger.entries[slot]? with
  | none => exact renames
  | some entry =>
    have here := renames.ledger.within slot entry found
    refine ⟨renames.ledger.erase found, renames.heap.release apart here, ?_, fun pair member => ?_⟩
    · show second.removed ++ [(entry.item.rename move, second.heap.childCount (entry.item.rename move))] = _
      rw [renames.removed, renames.heap.childCount here, List.map_append]
      rfl
    · rcases List.mem_append.mp member with earlier | now
      · exact renames.known pair earlier
      · rw [List.mem_singleton.mp now]
        exact here

theorem foldl (batch : List Slot) :
    (batch.foldl Removal.next first).Renames move known (batch.foldl Removal.next second) := by
  induction batch generalizing first second with
  | nil => exact renames
  | cons slot rest ih => exact ih (renames.next apart slot)

end Renames

end Removal

/-- A batch is removed under both identities or refused for the same reason. -/
theorem Ledger.Renames.reclaim {ledger other : Ledger} {heap heap' : Heap}
    (renames : ledger.Renames move known other) (heaps : heap.Renames move known heap')
    (apart : Apart move known) (batch : List Slot) :
    Echoes (LedgerError.rename move) (Removal.Renames move known)
      (ledger.reclaim heap batch) (other.reclaim heap' batch) := by
  unfold Ledger.reclaim
  -- What the batch is checked for are slots, edges between slots and counts.
  have untracked : batch.any (other.entries[·]?.isNone) = batch.any (ledger.entries[·]?.isNone) := by
    simp only [renames.getElem?, Option.isNone_map]
  rw [untracked, renames.edgesMatch heaps apart, renames.heldByBatch heaps, renames.outgoing heaps apart,
    renames.total]
  split
  · exact rfl
  split
  · exact rfl
  dsimp only
  split
  · exact rfl
  have start : Removal.Renames move known
      { ledger := { ledger.detachAll (ledger.outgoing heap batch) batch with
          total := ledger.total - ledger.heldByBatch heap batch }, heap }
      { ledger := { other.detachAll (ledger.outgoing heap batch) batch with
          total := ledger.total - ledger.heldByBatch heap batch }, heap := heap' } :=
    ⟨(renames.detachAll _ batch).withTotal _, heaps, rfl, fun _ member => nomatch member⟩
  exact start.foldl apart batch

namespace Sweep

variable {first second : Sweep} {component : Component}

structure Renames (move : Ident → Ident) (known : Ref → Prop) (first second : Sweep) : Prop where
  removal : first.removal.Renames move known second.removal
  live : second.live = first.live
  kept : second.kept = first.kept

namespace Renames

variable (renames : first.Renames move known second)

include renames

theorem isLive : second.isLive component = first.isLive component := by
  unfold Sweep.isLive
  simp only [renames.removal.ledger.getElem?, renames.live]
  congr 1
  funext slot
  cases first.removal.ledger.entries[slot]? <;> rfl

variable (apart : Apart move known)

include apart

theorem resolve (component : Component) : Echoes (LedgerError.rename move) (Renames move known)
    (first.resolve component) (second.resolve component) := by
  unfold Sweep.resolve
  rw [renames.isLive]
  split
  · exact ⟨renames.removal, by rw [renames.live], by rw [renames.kept]⟩
  · refine (renames.removal.ledger.reclaim renames.removal.heap apart component).map fun gone gone' here => ?_
    refine ⟨⟨here.ledger, here.heap, ?_, fun pair member => ?_⟩, renames.live, renames.kept⟩
    · simp only [renames.removal.removed, here.removed, List.map_append]
    · exact (List.mem_append.mp member).elim (renames.removal.known pair) (here.known pair)

theorem run (components : List Component) : (first.run components).1.Renames move known
      (second.run components).1 ∧
    (second.run components).2 = (first.run components).2.map (·.rename move) := by
  induction components generalizing first second with
  | nil => exact ⟨renames, rfl⟩
  | cons component rest ih =>
    unfold Sweep.run
    obtain ⟨error, failed, failed'⟩ | ⟨next, next', resolved, resolved', here⟩ :=
      (renames.resolve apart component).cases
    · rw [failed, failed']
      exact ⟨renames, rfl⟩
    · rw [resolved, resolved']
      exact ih here

end Renames

end Sweep

structure Settlement.Renames (move : Ident → Ident) (known : Ref → Prop) (first second : Settlement) :
    Prop where
  counter : first.counter.Renames move known second.counter
  heap : first.heap.Renames move known second.heap
  result : Echoes (LedgerError.rename move) Eq first.result second.result
  removed : second.removed = first.removed.map (renameRemoved move)
  known : ∀ pair ∈ first.removed, known pair.1

namespace Counter.Renames

variable {counter other : Counter} {heap heap' : Heap} (renames : counter.Renames move known other)

include renames

theorem skip (heaps : heap.Renames move known heap') :
    (counter.skip heap).Renames move known (other.skip heap') where
  counter := { renames with
    stats := by
      unfold Counter.skip
      simp only [renames.ledger.trackedCount, renames.ledger.total] }
  heap := heaps
  result := renames.ledger.total.symm
  removed := rfl
  known := fun _ member => nomatch member

theorem finish {first second : Removal} (removals : first.Renames move known second) (rebuilt : Bool)
    (log : List LogRecord) :
    (counter.finish first rebuilt log).Renames move known (other.finish second rebuilt log) where
  counter := { renames with
    ledger := removals.ledger
    stats := by
      unfold Counter.finish
      simp only [removals.ledger.trackedCount, removals.ledger.total, removals.removed, List.length_map] }
  heap := removals.heap
  result := removals.ledger.total.symm
  removed := removals.removed
  known := removals.known

variable (heaps : heap.Renames move known heap') (apart : Apart move known)

include heaps apart

theorem settleByMarking :
    (counter.settleByMarking heap).Renames move known (other.settleByMarking heap') := by
  unfold Counter.settleByMarking
  rw [renames.ledger.dead heaps apart]
  obtain ⟨error, failed, failed'⟩ | ⟨gone, gone', removed, removed', here⟩ :=
    (renames.ledger.reclaim heaps apart (counter.ledger.dead heap)).cases
  · rw [failed, failed']
    exact ⟨renames, heaps, rfl, rfl, fun _ member => nomatch member⟩
  · rw [removed, removed']
    exact renames.finish here false []

theorem settleByComponents :
    (counter.settleByComponents heap).Renames move known (other.settleByComponents heap') := by
  have start : Sweep.Renames move known { removal := { ledger := counter.ledger, heap } }
      { removal := { ledger := other.ledger, heap := heap' } } :=
    ⟨⟨renames.ledger, heaps, rfl, fun _ member => nomatch member⟩, rfl, rfl⟩
  unfold Counter.settleByComponents
  -- Both walk the cached components or those of one owner graph, so their walks can be compared.
  rw [renames.components, renames.ledger.ownerGraph, renames.ledger.trackedCount]
  obtain ⟨walked, ended⟩ := start.run apart (counter.components.getD counter.ledger.ownerGraph.components)
  revert walked ended
  dsimp only
  generalize Sweep.run { removal := { ledger := counter.ledger, heap } } _ = first
  generalize Sweep.run { removal := { ledger := other.ledger, heap := heap' } } _ = second
  intro walked ended
  obtain ⟨sweep, _ | error⟩ := first <;> obtain ⟨sweep', error'⟩ := second <;> cases ended
  case none =>
    have kept : Counter.Renames move known { counter with components := some sweep.kept }
        { other with components := some sweep'.kept } :=
      { renames with components := congrArg some walked.kept }
    exact kept.finish walked.removal _ _
  case some =>
    exact ⟨{ renames with ledger := walked.removal.ledger, components := rfl }, walked.removal.heap, rfl,
      walked.removal.removed, walked.removal.known⟩

theorem settle : (counter.settle heap).Renames move known (other.settle heap') := by
  have examined : Counter.Renames move known { counter with ledger := { counter.ledger with pending := ∅ } }
      { other with ledger := { other.ledger with pending := ∅ } } :=
    { renames with ledger := renames.ledger.examined }
  have passes : (other.ledger.hasPending || other.eager) = (counter.ledger.hasPending || counter.eager) := by
    rw [Ledger.hasPending, renames.ledger.pending, renames.eager, Ledger.hasPending]
  unfold Counter.settle
  rw [passes]
  split
  · dsimp only
    split
    next marking =>
      split
      next => exact examined.settleByMarking heaps apart
      next walking => cases walking.symm.trans (renames.strategy.trans marking)
    next walking =>
      split
      next marking => cases marking.symm.trans (renames.strategy.trans walking)
      next => exact examined.settleByComponents heaps apart
  · exact renames.skip heaps

end Counter.Renames

end Reclaim
