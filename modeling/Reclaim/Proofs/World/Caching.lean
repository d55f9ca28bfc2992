import Reclaim.Proofs.Graph.Partition
import Reclaim.Proofs.World.Precision
import Reclaim.Proofs.World.Unpaired

/-! The cache of components in paired runs. It is never computed again while values come, are held,
let go and collected, and still is at every point what a search of the present owner graph would
give, up to the order of components that do not own each other. -/

set_option autoImplicit false

namespace Reclaim

namespace Counter

def Filled (counter : Counter) : Prop :=
  ∀ components, counter.components = some components → ∀ component ∈ components, component ≠ []

end Counter

namespace World

variable {world after : World} {call : Call} {reply : Answer}

theorem filled_perform (filled : world.counter.Filled)
    (performed : world.perform call = (after, .ok reply)) : after.counter.Filled := by
  have result := hears_perform world call
  rw [performed] at result
  obtain ⟨same, _⟩ | ⟨hears, _⟩ := result
  · exact same ▸ filled
  · have caches : world.counter.Caches (· ≠ []) := filled
    exact hears.caches caches (fun slot => List.cons_ne_nil slot [])
      fun graph => graph.partition_components.nonempty

/-- Where a decomposition is cached, it is one of the present owner graph: what a search would find
now, but for the order. Owners stand no later than what they own. -/
theorem cached_components_partition (settings : Settings) (listener : Listener) {calls : List Call}
    (paired : (settings.world listener).Paired [] calls) (turn : Turn)
    (made : turn ∈ (settings.world listener).play [] calls) (answer : Answer)
    (answered : turn.result = .ok answer) (components : List Component)
    (cached : turn.after.counter.components = some components) :
    components.flatten.Nodup ∧
    (∀ slot, slot ∈ components.flatten ↔ turn.after.counter.ledger.entries[slot]?.isSome) ∧
    turn.after.counter.ledger.ownerGraph.Partition components ∧
    (∀ component ∈ components, ∃ fresh ∈ turn.after.counter.ledger.ownerGraph.components,
      component.Perm fresh) ∧
    (∀ fresh ∈ turn.after.counter.ledger.ownerGraph.components, ∃ component ∈ components,
      fresh.Perm component) ∧
    (∀ slot entry owner, turn.after.counter.ledger.entries[slot]? = some entry →
      entry.owners[owner]?.isSome → ∃ (first second : Nat) (owning owned : Component),
        components[first]? = some owning ∧ owner ∈ owning ∧
        components[second]? = some owned ∧ slot ∈ owned ∧ first ≤ second) := by
  -- That no component is empty is kept along with soundness.
  obtain ⟨_, _, kept⟩ := Paired.invariant
    (fun world owed => world.Sound owed ∧ world.counter.Filled) (fun _ => True)
    (fun _ _ _ _ _ ⟨sound, filled⟩ allowed _ performed =>
      ⟨sound.perform allowed performed, filled_perform filled performed⟩)
    paired ⟨sound_world settings listener, fun _ present => nomatch present⟩
    (fun _ _ => trivial) turn made
  obtain ⟨sound, filled⟩ := kept answer answered
  have valid := (sound.cached components cached).partition (filled components cached)
  have fresh := turn.after.counter.ledger.ownerGraph.partition_components
  refine ⟨valid.nodup, fun slot => (valid.mem_iff slot).trans Ledger.mem_occupied, valid,
    fun _ => valid.exists_perm fresh, fun _ => fresh.exists_perm valid, ?_⟩
  intro slot entry owner found recorded
  obtain ⟨edges, counted⟩ := Option.isSome_iff_exists.mp recorded
  obtain ⟨ownerEntry, ownerFound⟩ := sound.ledger.closed slot entry owner edges found counted
  have edge := Ledger.owner_edge_iff.mpr ⟨entry, found, recorded, by rw [ownerFound]; rfl⟩
  obtain ⟨second, first, owned, owning, ownedAt, member, owningAt, ownerMember, le⟩ :=
    valid.positions edge
  exact ⟨first, second, owning, owned, owningAt, ownerMember, ownedAt, member, le⟩

/-- After the first settle has cached the cycle as one component, a third array becomes tracked. -/
def cycleGrowthCalls : List Call :=
  cycleCalls.take 10 ++ [.newContainer (.list .array), .register (.shared (.container 2))]

def cycleGrowth : Turn :=
  (World.play { counter := { strategy := .incremental } } [] cycleGrowthCalls).get ⟨11, by decide +kernel⟩

theorem cached_components_partition_cycle :
    cycleGrowth.after.counter.ledger.ownerGraph.Partition [[1, 0], [2]] :=
  (cached_components_partition { strategy := .incremental } .absent (by decide +kernel) cycleGrowth
    (List.get_mem _ _) .done (by decide +kernel) [[1, 0], [2]] (by decide +kernel)).2.2.1

end World

end Reclaim
