import Reclaim.Proofs.Collect.Settle
import Reclaim.Proofs.Ledger.Edges

/-! The cache of components between settles. Holds do not touch the owner graph, a change of edges
drops the cache, and a value that becomes tracked while there is one has no owners and owns
nothing yet, so it may stand as a component of its own at the end. -/

set_option autoImplicit false

namespace Reclaim

namespace Ledger

variable {ledger next : Ledger} {components : List Component}

theorem ownerGraph_congr (same : ∀ slot, next.ownersAt? slot = ledger.ownersAt? slot) :
    next.ownerGraph = ledger.ownerGraph := by
  have nodes : next.occupied = ledger.occupied := by
    apply Std.ExtTreeSet.ext_mem
    intro slot
    rw [mem_occupied, mem_occupied, ← isSome_ownersAt?, ← isSome_ownersAt?, same]
  have successors : ∀ slot, next.ownerGraph.successors slot = ledger.ownerGraph.successors slot := by
    intro slot
    have owners := congrArg (·.map (·.keys)) (same slot)
    simp only [ownersAt?, Option.map_map] at owners
    exact congrArg (·.getD []) owners
  unfold ownerGraph
  rw [nodes]
  exact congrArg _ (funext successors)

theorem Valid.decomposition_track (valid : ledger.Valid) (closed : ledger.Closed) (ref : Ref)
    (decomposition : ledger.ownerGraph.Decomposition components) :
    (ledger.track ref).1.ownerGraph.Decomposition (components ++
      (if ledger.isTracked (.shared ref) then none else some (ledger.track ref).2).toList.map ([·])) := by
  -- A value that becomes tracked has no edges.
  unfold track
  have tracked : ledger.isTracked (.shared ref) = (ledger.slot? ref.id).isSome := rfl
  rw [tracked]
  cases ledger.slot? ref.id with
  | some slot => simpa using decomposition
  | none =>
    have fresh := valid.nextSlot_empty
    refine decomposition.snoc (fun member => ?_) (fun other => ?_) fun source target => ?_
    · have occupied := mem_occupied.mp member
      rw [fresh] at occupied
      cases occupied
    · have read := getElem?_insert ledger ref other
      refine (mem_occupied.trans ?_).trans (or_congr_right mem_occupied.symm)
      rw [read]
      by_cases here : ledger.nextSlot = other
      · simp [here]
      · simp [here, Ne.symm here]
    · simp only
      rw [owner_edge_iff, owner_edge_iff, getElem?_insert, getElem?_insert]
      by_cases here : ledger.nextSlot = source
      · rw [if_pos here, ← here, fresh]
        simp
      by_cases there : ledger.nextSlot = target
      · rw [if_neg here, if_pos there, ← there, fresh]
        -- No value records the slot that is taken now as an owner.
        simp only [Option.isSome_some, and_true, Option.isSome_none, Bool.false_eq_true, and_false,
          exists_false, iff_false, not_exists, not_and]
        intro entry found recorded
        rw [Closed.unowned closed fresh found] at recorded
        cases recorded
      · rw [if_neg here, if_neg there]

end Ledger

namespace Counter

variable {counter next : Counter} {heap : Heap} {created : Nat} {owed : List Due}
  {item owner : Value} {amount : Nat}

theorem addHolds_ok (added : counter.addHolds item amount = .ok next) :
    ∃ ledger, counter.ledger.addHolds item amount = .ok ledger ∧ counter.extend ledger item = next := by
  obtain ⟨ledger, result, same⟩ := ok_of_map added
  exact ⟨ledger, ok_of_mapError result, same⟩

theorem removeHold_ok (removed : counter.removeHold item = .ok next) :
    ∃ ledger, counter.ledger.removeHold item = .ok ledger ∧ { counter with ledger } = next := by
  obtain ⟨ledger, result, same⟩ := ok_of_map removed
  exact ⟨ledger, ok_of_mapError result, same⟩

theorem addEdge_ok (added : counter.addEdge item owner = .ok next) :
    ∃ ledger, counter.ledger.addEdge item owner = .ok ledger ∧ counter.relink ledger = next :=
  ok_of_map added

theorem removeEdge_ok (removed : counter.removeEdge item owner = .ok next) :
    ∃ ledger, counter.ledger.removeEdge item owner = .ok ledger ∧ counter.relink ledger = next := by
  obtain ⟨ledger, result, same⟩ := ok_of_map removed
  exact ⟨ledger, ok_of_mapError result, same⟩

/-- The invariant outlives a change after which the cache is as the graph. -/
theorem Sound.extend {ledger : Ledger} (sound : counter.Sound heap created owed)
    (agrees : ledger.Sound heap created owed)
    (cached : ∀ components, counter.ledger.ownerGraph.Decomposition components →
      ledger.ownerGraph.Decomposition (components ++
        (if counter.ledger.isTracked item then none else ledger.slotOf? item).toList.map ([·]))) :
    (counter.extend ledger item).Sound heap created owed where
  ledger := agrees
  cached components present := by
    obtain ⟨before, known, rfl⟩ := Option.map_eq_some_iff.mp present
    exact cached before (sound.cached before known)
  uncached marking := by
    have none := sound.uncached marking
    simp [Counter.extend, none]

theorem Sound.register (sound : counter.Sound heap created owed) (held : heap.holds item) :
    (counter.register item).Sound heap created owed := by
  refine sound.extend (sound.ledger.register held) fun components decomposition => ?_
  cases item with
  | scalar atom =>
    have scalar : (counter.ledger.register (.scalar atom)) = counter.ledger := rfl
    rw [scalar]
    have none : counter.ledger.slotOf? (.scalar atom) = none := rfl
    simpa [none] using decomposition
  | shared ref =>
    have located : (counter.ledger.register (.shared ref)).slotOf? (.shared ref) =
        some (counter.ledger.track ref).2 := Ledger.slot?_track counter.ledger ref
    rw [located]
    exact sound.ledger.valid.decomposition_track sound.ledger.closed ref decomposition

theorem Sound.addHolds (sound : counter.Sound heap created owed) (held : heap.holds item)
    (added : counter.addHolds item amount = .ok next) : next.Sound heap created owed := by
  obtain ⟨ledger, result, rfl⟩ := addHolds_ok added
  refine sound.extend (sound.ledger.addHolds held result) fun components decomposition => ?_
  obtain ⟨scalar, same⟩ | ⟨ref, rfl, located, same⟩ := Ledger.ownersAt?_addHolds result
  · rw [Ledger.ownerGraph_congr same]
    have none : ledger.slotOf? item = none := by simp [Ledger.slotOf?, Value.id?, scalar]
    simpa [none] using decomposition
  · rw [Ledger.ownerGraph_congr same, located]
    exact sound.ledger.valid.decomposition_track sound.ledger.closed ref decomposition

theorem Sound.removeHold (sound : counter.Sound heap created owed)
    (removed : counter.removeHold item = .ok next) : next.Sound heap created owed := by
  obtain ⟨ledger, result, rfl⟩ := removeHold_ok removed
  refine ⟨sound.ledger.removeHold result, fun components present => ?_, sound.uncached⟩
  rw [Ledger.ownerGraph_congr (Ledger.ownersAt?_removeHold result)]
  exact sound.cached components present

theorem Sound.relink {ledger : Ledger} {paid : List Due} (agrees : ledger.Sound heap created paid) :
    (counter.relink ledger).Sound heap created paid :=
  ⟨agrees, fun _ present => (nomatch present), fun _ => rfl⟩

theorem Sound.addEdge (sound : counter.Sound heap created owed) (due : .gain item owner ∈ owed)
    (added : counter.addEdge item owner = .ok next) :
    next.Sound heap created (owed.erase (.gain item owner)) := by
  obtain ⟨ledger, result, rfl⟩ := addEdge_ok added
  exact Sound.relink (sound.ledger.addEdge due result)

theorem Sound.removeEdge (sound : counter.Sound heap created owed) (due : .loss item owner ∈ owed)
    (removed : counter.removeEdge item owner = .ok next) :
    next.Sound heap created (owed.erase (.loss item owner)) := by
  obtain ⟨ledger, result, rfl⟩ := removeEdge_ok removed
  exact Sound.relink (sound.ledger.removeEdge due result)

end Counter

end Reclaim
