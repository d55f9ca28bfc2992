import Reclaim.Collect.Settle
import Reclaim.Proofs.Collect.Liveness
import Reclaim.Proofs.Graph.Marking

/-! The two graphs of a ledger. Where ledger and heap agree, the content graph leads from a value to
those it leads to through contents, and the owner graph leads the same ways back. -/

set_option autoImplicit false

namespace Reclaim

namespace Ledger

variable {ledger : Ledger} {heap : Heap} {created : Nat} {slot owner : Slot}
  {entry ownerEntry : Entry}

theorem mem_occupied : slot ∈ ledger.occupied ↔ ledger.entries[slot]?.isSome := by
  rw [occupied, Std.ExtTreeSet.mem_ofList, List.contains_iff_mem, Std.ExtTreeMap.mem_keys,
    Std.ExtTreeMap.mem_iff_isSome_getElem?]

theorem mem_roots : slot ∈ ledger.roots ↔ ∃ entry, ledger.entries[slot]? = some entry ∧ 0 < entry.held := by
  simp [roots, Std.ExtTreeMap.mem_toList_iff_getElem?_eq_some]

theorem occupied_of_mem_dead (slot : Slot) (member : slot ∈ ledger.dead heap) :
    ledger.entries[slot]?.isSome :=
  mem_occupied.mp (Digraph.mem_unreached.mp member).1

theorem owner_edge_iff : ledger.ownerGraph.Edge slot owner ↔
    ∃ entry, ledger.entries[slot]? = some entry ∧ entry.owners[owner]?.isSome ∧
      ledger.entries[owner]?.isSome := by
  have listed : ∀ entry, ledger.entries[slot]? = some entry →
      (owner ∈ ledger.ownerGraph.successors slot ↔ entry.owners[owner]?.isSome) := by
    intro entry found
    simp only [ownerGraph, found, Option.map_some, Option.getD_some]
    rw [Std.ExtTreeMap.mem_keys, Std.ExtTreeMap.mem_iff_isSome_getElem?]
  constructor
  · intro edge
    obtain ⟨entry, found⟩ := Option.isSome_iff_exists.mp (mem_occupied.mp edge.source_mem)
    exact ⟨entry, found, (listed entry found).mp edge.listed, mem_occupied.mp edge.target_mem⟩
  · rintro ⟨entry, found, recorded, occupied⟩
    exact ⟨mem_occupied.mpr (by rw [found]; rfl), mem_occupied.mpr occupied,
      (listed entry found).mpr recorded⟩

theorem Vacates.owner_edge_iff {after : Ledger} {batch : List Slot}
    (vacates : ledger.Vacates batch after) : after.ownerGraph.Edge slot owner ↔
      ledger.ownerGraph.Edge slot owner ∧ slot ∉ batch ∧ owner ∉ batch := by
  rw [Ledger.owner_edge_iff, Ledger.owner_edge_iff, vacates.entries, vacates.entries]
  by_cases inside : slot ∈ batch
  · simp [inside]
  by_cases ownerInside : owner ∈ batch
  · simp [ownerInside]
  rw [if_neg inside, if_neg ownerInside, and_iff_left ⟨inside, ownerInside⟩]
  simp only [Option.isSome_map, Option.map_eq_some_iff]
  constructor
  · rintro ⟨_, ⟨entry, found, rfl⟩, recorded, occupied⟩
    refine ⟨entry, found, ?_, occupied⟩
    rw [Std.ExtTreeMap.getElem?_filter', Option.isSome_filter] at recorded
    exact Option.isSome_of_any recorded
  · rintro ⟨entry, found, recorded, occupied⟩
    refine ⟨_, ⟨entry, found, rfl⟩, ?_, occupied⟩
    rw [Std.ExtTreeMap.getElem?_filter', Option.isSome_filter]
    obtain ⟨edges, recorded⟩ := Option.isSome_iff_exists.mp recorded
    simp [recorded, ownerInside]

theorem Vacates.mem_occupied {after : Ledger} {batch : List Slot}
    (vacates : ledger.Vacates batch after) :
    slot ∈ after.occupied ↔ slot ∈ ledger.occupied ∧ slot ∉ batch := by
  rw [Ledger.mem_occupied, Ledger.mem_occupied, vacates.entries]
  by_cases inside : slot ∈ batch
  · simp [inside]
  · simp [inside]

def Reached (ledger : Ledger) (step : Ref → Ref → Prop) (ref : Ref) : Prop :=
  ∃ root ∈ ledger.tracked, 0 < ledger.held (.shared root) ∧ Relation.ReflTransGen step root ref

theorem Valid.exists_root_iff {ofSlot : Slot → Prop} {ofRef : Ref → Prop} (valid : ledger.Valid)
    (same : ∀ root rootEntry, ledger.entries[root]? = some rootEntry → (ofSlot root ↔ ofRef rootEntry.item)) :
    (∃ root ∈ ledger.roots, ofSlot root) ↔
      ∃ ref ∈ ledger.tracked, 0 < ledger.held (.shared ref) ∧ ofRef ref := by
  constructor
  · rintro ⟨root, rooted, holds⟩
    obtain ⟨rootEntry, present, held⟩ := mem_roots.mp rooted
    exact ⟨rootEntry.item, tracked_of_entry present, (valid.held_eq present).symm ▸ held,
      (same root rootEntry present).mp holds⟩
  · rintro ⟨ref, tracked, held, holds⟩
    obtain ⟨root, rootEntry, present, rfl⟩ := mem_tracked.mp tracked
    rw [valid.held_eq present] at held
    exact ⟨root, mem_roots.mpr ⟨rootEntry, present, held⟩, (same root rootEntry present).mpr holds⟩

/-- A graph over the slots in use has an edge wherever there is a step from one tracked value to another. -/
structure Draws (ledger : Ledger) (graph : Digraph) (step : Ref → Ref → Prop) : Prop where
  nodes : graph.nodes = ledger.occupied
  edge_iff : ∀ (source target : Slot) (sourceEntry targetEntry : Entry),
    ledger.entries[source]? = some sourceEntry → ledger.entries[target]? = some targetEntry →
      (graph.Edge source target ↔ step sourceEntry.item targetEntry.item)
  tracked : ∀ source target, step source target → source ∈ ledger.tracked

namespace Draws

variable {graph : Digraph} {step : Ref → Ref → Prop} {source target : Slot}
  {sourceEntry targetEntry : Entry}

theorem mem_nodes (draws : ledger.Draws graph step) :
    slot ∈ graph.nodes ↔ ∃ entry, ledger.entries[slot]? = some entry := by
  rw [draws.nodes, mem_occupied, Option.isSome_iff_exists]

theorem reach_iff (draws : ledger.Draws graph step) (valid : ledger.Valid)
    (sourceFound : ledger.entries[source]? = some sourceEntry)
    (targetFound : ledger.entries[target]? = some targetEntry) :
    graph.Reach source target ↔ Relation.ReflTransGen step sourceEntry.item targetEntry.item := by
  constructor
  · intro path
    induction path generalizing targetEntry with
    | refl _ =>
      rw [sourceFound] at targetFound
      cases targetFound
      exact .refl
    | tail path edge ih =>
      obtain ⟨middle, present⟩ := draws.mem_nodes.mp path.target_mem
      exact (ih present).tail ((draws.edge_iff _ _ _ _ present targetFound).mp edge)
  · intro path
    generalize last : targetEntry.item = ref at path
    induction path generalizing target targetEntry with
    | refl =>
      have known := valid.slot_of_entry targetFound
      rw [last, valid.slot_of_entry sourceFound] at known
      cases known
      exact .refl (draws.mem_nodes.mpr ⟨sourceEntry, sourceFound⟩)
    | @tail middle ref path next ih =>
      obtain ⟨before, middleEntry, present, rfl⟩ := mem_tracked.mp (draws.tracked middle ref next)
      subst last
      exact (ih present rfl).tail ((draws.edge_iff _ _ _ _ present targetFound).mpr next)

theorem reached_iff (draws : ledger.Draws graph step) (valid : ledger.Valid)
    (found : ledger.entries[slot]? = some entry) :
    (∃ root ∈ ledger.roots, graph.Reach root slot) ↔ ledger.Reached step entry.item :=
  valid.exists_root_iff fun _ _ present => draws.reach_iff valid present found

theorem reached_iff_swap (draws : ledger.Draws graph (Function.swap step)) (valid : ledger.Valid)
    (found : ledger.entries[slot]? = some entry) :
    (∃ root ∈ ledger.roots, graph.Reach slot root) ↔ ledger.Reached step entry.item :=
  valid.exists_root_iff fun _ _ present =>
    (draws.reach_iff valid found present).trans Relation.reflTransGen_swap

theorem mem_unreached (draws : ledger.Draws graph step) (valid : ledger.Valid)
    (found : ledger.entries[slot]? = some entry) :
    slot ∈ graph.unreached ledger.roots ↔ ¬ledger.Reached step entry.item := by
  rw [Digraph.mem_unreached, and_iff_right (draws.mem_nodes.mpr ⟨entry, found⟩),
    ← draws.reached_iff valid found]
  simp

end Draws

theorem Housed.content_edge_iff (housed : ledger.Housed heap created)
    (ownerFound : ledger.entries[owner]? = some ownerEntry)
    (found : ledger.entries[slot]? = some entry) :
    (ledger.contentGraph heap).Edge owner slot ↔ heap.Contains ownerEntry.item entry.item := by
  rw [← housed.mem_childSlots found ownerFound]
  refine ⟨fun edge => edge.listed, fun listed => ⟨?_, ?_, listed⟩⟩
  · exact mem_occupied.mpr (by rw [ownerFound]; rfl)
  · exact mem_occupied.mpr (by rw [found]; rfl)

namespace Sound

theorem draws_contents (sound : ledger.Sound heap created []) :
    ledger.Draws (ledger.contentGraph heap) heap.Contains where
  nodes := rfl
  edge_iff _ _ _ _ ownerFound found := sound.housed.content_edge_iff ownerFound found
  tracked _ _ contains := (sound.tracked_of_contains contains).1

/-- Marking finds the slots of the live values. -/
theorem mem_dead (sound : ledger.Sound heap created []) (found : ledger.entries[slot]? = some entry) :
    slot ∈ ledger.dead heap ↔ ¬ledger.Live heap entry.item :=
  sound.draws_contents.mem_unreached sound.valid found

theorem mem_items_dead (sound : ledger.Sound heap created []) (ref : Ref) :
    ref ∈ ledger.items (ledger.dead heap) ↔ ref ∈ ledger.tracked ∧ ¬ledger.Live heap ref := by
  rw [mem_items, mem_tracked]
  constructor
  · rintro ⟨slot, member, entry, found, rfl⟩
    exact ⟨⟨slot, entry, found, rfl⟩, (sound.mem_dead found).mp member⟩
  · rintro ⟨⟨slot, entry, found, rfl⟩, dead⟩
    exact ⟨slot, (sound.mem_dead found).mpr dead, entry, found, rfl⟩

/-- Recorded edges lead against the contents. -/
theorem leads_of_owner_reach (sound : ledger.Sound heap created [])
    (path : ledger.ownerGraph.Reach slot owner) (found : ledger.entries[slot]? = some entry)
    (ownerFound : ledger.entries[owner]? = some ownerEntry) :
    heap.Leads ownerEntry.item entry.item := by
  induction path generalizing ownerEntry with
  | refl _ =>
    rw [found] at ownerFound
    cases ownerFound
    exact .refl
  | tail path edge ih =>
    obtain ⟨middle, present, recorded, _⟩ := owner_edge_iff.mp edge
    exact (ih present).head ((sound.recorded_iff present ownerFound).mp recorded)

end Sound

end Ledger

end Reclaim
