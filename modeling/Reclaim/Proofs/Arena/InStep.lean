import Reclaim.Proofs.Arena.Host

/-! What the parts of a counter say of each other, in runs of any calls. The index, the free list, the number
of tracked values, the pending slots and the cached components all speak of the slots in use, and are changed
by different operations. -/

set_option autoImplicit false

namespace Reclaim

structure Counter.InStep (counter : Counter) : Prop where
  index_iff : ∀ id slot, counter.ledger.index[id]? = some slot ↔
    ∃ entry : Entry, counter.ledger.entries[slot]? = some entry ∧ entry.item.id = id
  bounded : ∀ slot, counter.ledger.entries[slot]?.isSome → slot < counter.ledger.bound
  free_nodup : counter.ledger.free.Nodup
  free_iff : ∀ slot, slot ∈ counter.ledger.free ↔
    slot < counter.ledger.bound ∧ counter.ledger.entries[slot]? = none
  tracked : counter.ledger.trackedCount =
    (List.range counter.ledger.bound).countP (counter.ledger.entries[·]?.isSome)
  pending : ∀ slot ∈ counter.ledger.pending, counter.ledger.entries[slot]?.isSome
  edges : ∀ (slot : Slot) (entry : Entry) (owner : Slot) (edges : Nat),
    counter.ledger.entries[slot]? = some entry → entry.owners[owner]? = some edges → 1 ≤ edges
  cached : ∀ components, counter.components = some components → components.flatten.Nodup ∧
    ∀ slot, slot ∈ components.flatten ↔ counter.ledger.entries[slot]?.isSome

theorem Ledger.Valid.trackedCount_eq {ledger : Ledger} (valid : ledger.Valid) :
    ledger.trackedCount = (List.range ledger.bound).countP (ledger.entries[·]?.isSome) := by
  have listed : ledger.occupied.toList =
      (List.range ledger.bound).filter fun slot => ledger.entries[slot]?.isSome := by
    refine NodeSet.toList_eq_filter fun slot => Ledger.mem_occupied.trans ⟨fun occupied => ?_, And.right⟩
    obtain ⟨entry, found⟩ := Option.isSome_iff_exists.mp occupied
    exact ⟨valid.bounded slot entry found, occupied⟩
  rw [← ledger.size_occupied, ← Std.ExtTreeSet.length_toList, listed, List.countP_eq_length_filter]

theorem Counter.Orderly.inStep {counter : Counter} (orderly : counter.Orderly) (lists : counter.Lists) :
    counter.InStep where
  index_iff := orderly.valid.index_iff
  bounded slot occupied := by
    obtain ⟨entry, found⟩ := Option.isSome_iff_exists.mp occupied
    exact orderly.valid.bounded slot entry found
  free_nodup := orderly.valid.free_nodup
  free_iff := orderly.valid.mem_free
  tracked := orderly.valid.trackedCount_eq
  pending slot member := Option.isSome_iff_exists.mpr (orderly.valid.pending_mem slot member)
  edges := orderly.valid.edges_pos
  cached components present :=
    ⟨(lists.cached components present).nodup, (lists.cached components present).mem_iff⟩

theorem countP_eq_range {α : Type} (cells : Array α) (counts : α → Bool) :
    cells.countP counts = (List.range cells.size).countP fun place => cells[place]?.any counts := by
  have places : (List.range cells.size).map (cells[·]?) = cells.toList.map some := by
    apply List.ext_getElem (by simp)
    intro place inside _
    simp at inside
    simp [inside]
  rw [← Array.countP_toList, ← show (Option.any counts ∘ some) = counts from rfl, ← List.countP_map, ← places,
    List.countP_map]
  rfl

theorem Arena.Shows.tracked_eq {arena : Arena} {ledger : Ledger} (shows : arena.Shows ledger)
    (valid : ledger.Valid) : arena.tracked = arena.slots.countP Option.isSome := by
  rw [shows.tracked, valid.trackedCount_eq, countP_eq_range, ← shows.bound]
  refine List.countP_congr fun slot _ => ?_
  rw [← shows.entries, Arena.occupant?]
  cases arena.slots[slot]? <;> rfl

/-- Whatever has been called, and whatever has been refused, the parts of the counter agree. The number of
tracked values, which a host counts along, is that of the occupied places of its array. -/
theorem World.counter_inStep (settings : Settings) (listener : Listener) (calls : List Call) :
    ((settings.world listener).after calls).counter.InStep ∧
      ∀ last, settings.host.run calls = .ok last →
        last.Shows ((settings.world listener).after calls) ∧
          last.collector.arena.tracked = last.collector.arena.slots.countP Option.isSome := by
  have orderly := World.orderly_after settings listener calls
  refine ⟨orderly.inStep (World.lists_after settings listener calls), fun last ended => ?_⟩
  have shows := (Host.shows_after settings listener calls).of_ok ended
  exact ⟨shows, shows.collector.arena.tracked_eq orderly.valid⟩

-- Three slots have been freed, and no value is tracked any more.
theorem World.counter_inStep_rented : ∃ last, ({} : Settings).host.run Host.rentedCycleCalls = .ok last ∧
    last.collector.arena.tracked = last.collector.arena.slots.countP Option.isSome ∧
      last.collector.arena.tracked = 0 := by
  obtain ⟨last, ended⟩ := Host.run_rentedCycleCalls .markSweep
  obtain ⟨_, hosted⟩ := World.counter_inStep {} .absent Host.rentedCycleCalls
  obtain ⟨shows, counted⟩ := hosted last ended
  refine ⟨last, ended, counted, shows.collector.arena.tracked.trans ?_⟩
  decide +kernel

end Reclaim
