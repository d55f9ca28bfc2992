import Reclaim.Proofs.Collect.Listing

/-! What each strategy traces, where recorded edges and contents need not agree. Marking follows the contents of
tracked values, a walk over fresh components follows the recorded edges from slots in use, and each keeps
what it finds from the held values and nothing else. The walk empties slots on its way, but only slots from
which no recorded edge matters any more. -/

set_option autoImplicit false

namespace Reclaim

namespace Ledger

variable {ledger : Ledger} {heap : Heap} {created : Nat} {slot owner : Slot} {entry : Entry}

def Containing (ledger : Ledger) (heap : Heap) (owner item : Ref) : Prop :=
  owner ∈ ledger.tracked ∧ item ∈ ledger.tracked ∧ heap.Contains owner item

def Recording (ledger : Ledger) (owner item : Ref) : Prop :=
  ∃ (ownerSlot slot : Slot) (ownerEntry entry : Entry),
    ledger.entries[ownerSlot]? = some ownerEntry ∧ ownerEntry.item = owner ∧
      ledger.entries[slot]? = some entry ∧ entry.item = item ∧ entry.owners[ownerSlot]?.isSome

theorem Housed.draws_contents (housed : ledger.Housed heap created) :
    ledger.Draws (ledger.contentGraph heap) (ledger.Containing heap) where
  nodes := rfl
  edge_iff _ _ _ _ ownerFound found := by
    rw [housed.content_edge_iff ownerFound found, Containing, and_iff_right (tracked_of_entry ownerFound),
      and_iff_right (tracked_of_entry found)]
  tracked _ _ step := step.1

theorem Valid.draws_records (valid : ledger.Valid) :
    ledger.Draws ledger.ownerGraph (Function.swap ledger.Recording) where
  nodes := rfl
  edge_iff slot ownerSlot entry ownerEntry found ownerFound := by
    rw [owner_edge_iff]
    constructor
    · rintro ⟨same, found', recorded, _⟩
      cases found.symm.trans found'
      exact ⟨ownerSlot, slot, ownerEntry, entry, ownerFound, rfl, found, rfl, recorded⟩
    · rintro ⟨place, other, placed, otherEntry, placeFound, sameOwner, otherFound, sameItem, recorded⟩
      cases valid.slot_inj placeFound ownerFound sameOwner
      cases valid.slot_inj otherFound found sameItem
      cases found.symm.trans otherFound
      exact ⟨entry, found, recorded, by rw [ownerFound]; rfl⟩
  tracked := by
    rintro item owner ⟨_, _, _, _, _, _, found, rfl, _⟩
    exact tracked_of_entry found

def Rooted (ledger : Ledger) (slot : Slot) : Prop := ∃ root ∈ ledger.roots, ledger.ownerGraph.Reach slot root

theorem Rooted.of_edge (edge : ledger.ownerGraph.Edge slot owner) (rooted : ledger.Rooted owner) :
    ledger.Rooted slot := by
  obtain ⟨root, member, path⟩ := rooted
  exact ⟨root, member, edge.reach.trans path⟩

theorem rooted_of_held (found : ledger.entries[slot]? = some entry) (held : 0 < entry.held) :
    ledger.Rooted slot :=
  ⟨slot, mem_roots.mpr ⟨entry, found, held⟩, .refl (mem_occupied.mpr (by rw [found]; rfl))⟩

/-- A slot that has been handled has been left in use only if it is rooted. -/
def Spared (ledger : Ledger) (handled : List Component) (slot : Slot) : Prop :=
  slot ∈ handled.flatten → ledger.Rooted slot

theorem spared_append {handled : List Component} {component : Component} :
    ledger.Spared (handled ++ [component]) slot ↔
      ledger.Spared handled slot ∧ (slot ∈ component → ledger.Rooted slot) := by
  unfold Spared
  rw [List.flatten_append, List.flatten_singleton, List.mem_append]
  exact or_imp

end Ledger

/-- An entry after edges from owners other than those that stay have perhaps been forgotten. -/
structure Entry.Trims (stays : Slot → Prop) (before after : Entry) : Prop where
  item : after.item = before.item
  held : after.held = before.held
  fewer : ∀ owner : Slot, after.owners[owner]?.isSome → before.owners[owner]?.isSome
  same : ∀ owner : Slot, stays owner → after.owners[owner]? = before.owners[owner]?

theorem Entry.Trims.mono {stays others : Slot → Prop} {before after : Entry} (trims : before.Trims stays after)
    (fewer : ∀ owner, others owner → stays owner) : before.Trims others after :=
  { trims with same := fun owner stay => trims.same owner (fewer owner stay) }

namespace Sweep

variable {ledger : Ledger} {heap : Heap} {handled rest : List Component} {component : Component}
  {sweep next last : Sweep} {slot : Slot}

/-- What a walk has found out about the components that it has handled: it has marked the slots that are
rooted, and emptied the others. -/
structure Traces (ledger : Ledger) (handled rest : List Component) (sweep : Sweep) : Prop where
  decomposition : ledger.ownerGraph.Decomposition (handled ++ rest)
  valid : sweep.removal.ledger.Valid
  live_iff : ∀ slot, slot ∈ sweep.live ↔ slot ∈ handled.flatten ∧ ledger.Rooted slot
  left : ∀ (slot : Slot) (after : Entry), sweep.removal.ledger.entries[slot]? = some after →
    ledger.Spared handled slot ∧ ∃ before : Entry, ledger.entries[slot]? = some before ∧
      before.Trims (ledger.Spared handled) after
  kept : ∀ (slot : Slot) (before : Entry), ledger.entries[slot]? = some before → ledger.Spared handled slot →
    ∃ after : Entry, sweep.removal.ledger.entries[slot]? = some after ∧
      before.Trims (ledger.Spared handled) after

namespace Traces

variable (traces : Traces ledger handled (component :: rest) sweep)
include traces

theorem rooted_of_isLive (live : sweep.isLive component) (member : slot ∈ component) : ledger.Rooted slot := by
  obtain ⟨source, sourceMember, after, found, reason⟩ := isLive_iff.mp live
  obtain ⟨_, before, present, trims⟩ := traces.left source after found
  have rooted : ledger.Rooted source := by
    rcases reason with held | ⟨owner, marked, recorded⟩
    · exact Ledger.rooted_of_held present (trims.held ▸ held)
    · obtain ⟨root, rooted, path⟩ := ((traces.live_iff owner).mp marked).2
      have edge : ledger.ownerGraph.Edge source owner := Ledger.owner_edge_iff.mpr
        ⟨before, present, trims.fewer owner recorded, Ledger.mem_occupied.mp path.source_mem⟩
      exact .of_edge edge ⟨root, rooted, path⟩
  obtain ⟨root, rooted, path⟩ := rooted
  exact ⟨root, rooted, (traces.decomposition.connected component (by simp) slot member source
    sourceMember).trans path⟩

theorem isLive_of_rooted (member : slot ∈ component) (rooted : ledger.Rooted slot) : sweep.isLive component := by
  obtain ⟨root, rooted, path⟩ := rooted
  refine Classical.byContradiction fun dead => ?_
  have unmarked : ∀ source ∈ component, ∀ after : Entry, sweep.removal.ledger.entries[source]? = some after →
      ¬(0 < after.held ∨ ∃ owner ∈ sweep.live, after.owners[owner]?.isSome) :=
    fun source inside after found reason => dead (isLive_iff.mpr ⟨source, inside, after, found, reason⟩)
  -- Were the component dead, no path along owners would leave it but to slots that are not rooted.
  have closed : ∀ source target, ledger.ownerGraph.Edge source target →
      (source ∈ component ∨ source ∈ handled.flatten ∧ ¬ledger.Rooted source) →
        target ∈ component ∨ target ∈ handled.flatten ∧ ¬ledger.Rooted target := by
    rintro source target edge (inside | ⟨earlier, unrooted⟩)
    · refine (traces.decomposition.edge_mem inside edge).symm.imp_right fun earlier => ⟨earlier, fun rooted => ?_⟩
      obtain ⟨before, present, recorded, _⟩ := Ledger.owner_edge_iff.mp edge
      have spared : ledger.Spared handled source := fun listed =>
        absurd listed (traces.decomposition.not_mem_before inside)
      obtain ⟨after, found, trims⟩ := traces.kept source before present spared
      refine unmarked source inside after found (.inr ⟨target, (traces.live_iff target).mpr ⟨earlier, rooted⟩, ?_⟩)
      rw [trims.same target fun _ => rooted]
      exact recorded
    · exact .inr ⟨traces.decomposition.closed edge earlier, fun rooted => unrooted (.of_edge edge rooted)⟩
  obtain ⟨before, present, held⟩ := Ledger.mem_roots.mp rooted
  rcases path.mem_of_closed _ closed (.inl member) with inside | ⟨_, unrooted⟩
  · obtain ⟨after, found, trims⟩ := traces.kept root before present fun listed =>
      absurd listed (traces.decomposition.not_mem_before inside)
    exact unmarked root inside after found (.inl (trims.held.symm ▸ held))
  · exact unrooted (Ledger.rooted_of_held present held)

theorem keep (live : sweep.isLive component) :
    Traces ledger (handled ++ [component]) rest (sweep.keep component) where
  decomposition := by
    rw [List.append_assoc]
    exact traces.decomposition
  valid := traces.valid
  live_iff slot := by
    unfold Sweep.keep
    simp only [Std.ExtTreeSet.mem_insertMany_list, List.contains_iff_mem]
    rw [List.flatten_append, List.flatten_singleton, List.mem_append, traces.live_iff, or_and_right,
      and_iff_left_of_imp (traces.rooted_of_isLive live)]
  left slot after found := by
    obtain ⟨spared, before, present, trims⟩ := traces.left slot after found
    exact ⟨Ledger.spared_append.mpr ⟨spared, traces.rooted_of_isLive live⟩, before, present,
      trims.mono fun _ spared => (Ledger.spared_append.mp spared).1⟩
  kept slot before present spared := by
    obtain ⟨after, found, trims⟩ := traces.kept slot before present (Ledger.spared_append.mp spared).1
    exact ⟨after, found, trims.mono fun _ spared => (Ledger.spared_append.mp spared).1⟩

/-- The removal of a dead component empties slots that are not rooted, and forgets edges from these only. -/
theorem drop {removal : Removal} (dead : ¬sweep.isLive component)
    (reclaimed : sweep.removal.ledger.reclaim sweep.removal.heap component = .ok removal) :
    Traces ledger (handled ++ [component]) rest (sweep.drop removal) := by
  have cuts := traces.valid.cuts (traces.decomposition.nodup_component (by simp)) reclaimed
  have unrooted : ∀ slot ∈ component, ¬ledger.Rooted slot := fun slot member rooted =>
    dead (traces.isLive_of_rooted member rooted)
  have outside : ∀ slot, ledger.Spared (handled ++ [component]) slot → slot ∉ component :=
    fun slot spared member => unrooted slot member ((Ledger.spared_append.mp spared).2 member)
  -- Only edges from members are forgotten, and no member is spared.
  have trimmed : ∀ (slot : Slot) (before middle : Entry), before.Trims (ledger.Spared handled) middle →
      before.Trims (ledger.Spared (handled ++ [component])) { middle with
        owners := middle.owners.filter fun owner _ => !(component.contains owner &&
          (sweep.removal.ledger.outgoing sweep.removal.heap component owner).contains slot) } := by
    intro slot before middle trims
    refine ⟨trims.item, trims.held, fun owner recorded => trims.fewer owner ?_, fun owner spared => ?_⟩
    · rw [Std.ExtTreeMap.getElem?_filter', Option.isSome_filter] at recorded
      exact Option.isSome_of_any recorded
    · rw [← trims.same owner (Ledger.spared_append.mp spared).1, Std.ExtTreeMap.getElem?_filter']
      cases middle.owners[owner]? <;> simp [outside owner spared]
  refine ⟨?_, cuts.valid, fun slot => ?_, fun slot after found => ?_, fun slot before present spared => ?_⟩
  · rw [List.append_assoc]
    exact traces.decomposition
  · rw [List.flatten_append, List.flatten_singleton, List.mem_append, or_and_right]
    refine (traces.live_iff slot).trans (or_iff_left fun ⟨member, rooted⟩ => ?_).symm
    exact unrooted slot member rooted
  · have occupied : removal.ledger.entries[slot]?.isSome := Option.isSome_iff_exists.mpr ⟨after, found⟩
    have gone := cuts.outside occupied
    obtain ⟨middle, between, rfl⟩ := cuts.entry_cases found
    obtain ⟨spared, before, present, trims⟩ := traces.left slot middle between
    exact ⟨Ledger.spared_append.mpr ⟨spared, fun member => absurd member gone⟩, before, present,
      trimmed slot before middle trims⟩
  · obtain ⟨middle, between, trims⟩ := traces.kept slot before present (Ledger.spared_append.mp spared).1
    have after := cuts.entries slot
    rw [if_neg (outside slot spared), between] at after
    exact ⟨_, after, trimmed slot before middle trims⟩

theorem resolve (resolved : sweep.resolve component = .ok next) :
    Traces ledger (handled ++ [component]) rest next := by
  unfold Sweep.resolve at resolved
  split at resolved
  next live =>
    cases resolved
    exact traces.keep live
  next dead =>
    obtain ⟨removal, reclaimed, rfl⟩ := ok_of_map resolved
    exact traces.drop dead reclaimed

end Traces

theorem traces_start (valid : ledger.Valid) :
    Traces ledger [] ledger.ownerGraph.components { removal := { ledger, heap } } where
  decomposition := ledger.ownerGraph.decomposition_components
  valid := valid
  live_iff slot := by simp
  left slot after found := ⟨nofun, after, found, ⟨rfl, rfl, fun _ recorded => recorded, fun _ _ => rfl⟩⟩
  kept slot before present _ := ⟨before, present, ⟨rfl, rfl, fun _ recorded => recorded, fun _ _ => rfl⟩⟩

/-- A walk over fresh components that comes to its end keeps what the recorded edges lead to. -/
theorem tracked_of_run (valid : ledger.Valid)
    (ended : run { removal := { ledger, heap } } ledger.ownerGraph.components = (last, none)) (ref : Ref) :
    ref ∈ last.removal.ledger.tracked ↔ ref ∈ ledger.tracked ∧ ledger.Reached ledger.Recording ref := by
  obtain ⟨handled, traces⟩ := run_induction (fun sweep rest => ∃ handled, Traces ledger handled rest sweep)
    (fun _ component _ _ resolved ⟨handled, traces⟩ => ⟨handled ++ [component], traces.resolve resolved⟩)
    ⟨[], traces_start valid⟩ ended
  -- In the end every slot has been handled, so that those still in use are the rooted ones.
  have all : ∀ (slot : Slot) (entry : Entry), ledger.entries[slot]? = some entry → slot ∈ handled.flatten := by
    intro slot entry found
    have listed := (traces.decomposition.mem_iff slot).mpr (Ledger.mem_occupied.mpr (by rw [found]; rfl))
    rwa [List.append_nil] at listed
  constructor
  · intro tracked
    obtain ⟨slot, after, found, rfl⟩ := Ledger.mem_tracked.mp tracked
    obtain ⟨spared, before, present, trims⟩ := traces.left slot after found
    rw [trims.item]
    exact ⟨Ledger.tracked_of_entry present,
      (valid.draws_records.reached_iff_swap valid present).mp (spared (all slot before present))⟩
  · rintro ⟨tracked, reached⟩
    obtain ⟨slot, before, present, rfl⟩ := Ledger.mem_tracked.mp tracked
    have rooted : ledger.Rooted slot := (valid.draws_records.reached_iff_swap valid present).mpr reached
    obtain ⟨after, found, trims⟩ := traces.kept slot before present fun _ => rooted
    exact trims.item ▸ Ledger.tracked_of_entry found

end Sweep

namespace Counter

variable {counter : Counter} {heap : Heap} {created count : Nat}

theorem tracked_of_marking (housed : counter.ledger.Housed heap created)
    (result : (counter.settleByMarking heap).result = .ok count) (ref : Ref) :
    ref ∈ (counter.settleByMarking heap).counter.ledger.tracked ↔
      ref ∈ counter.ledger.tracked ∧ counter.ledger.Reached (counter.ledger.Containing heap) ref := by
  unfold settleByMarking at result ⊢
  cases reclaimed : counter.ledger.reclaim heap (counter.ledger.dead heap) with
  | error error =>
    rw [reclaimed] at result
    cases result
  | ok removal =>
    have cuts := housed.valid.cuts Digraph.nodup_unreached reclaimed
    refine (cuts.tracked_iff housed.valid).trans (and_congr_right fun tracked => ?_)
    obtain ⟨slot, entry, found, rfl⟩ := Ledger.mem_tracked.mp tracked
    have unreached := housed.draws_contents.mem_unreached housed.valid found
    rw [housed.valid.mem_items_iff found, unreached, Classical.not_not]

theorem tracked_of_walking (valid : counter.ledger.Valid) (fresh : counter.components = none)
    (result : (counter.settleByComponents heap).result = .ok count) (ref : Ref) :
    ref ∈ (counter.settleByComponents heap).counter.ledger.tracked ↔
      ref ∈ counter.ledger.tracked ∧ counter.ledger.Reached counter.ledger.Recording ref := by
  unfold settleByComponents at result ⊢
  simp only [fresh, Option.getD_none] at result ⊢
  split at result
  next => cases result
  next sweep ended => exact Sweep.tracked_of_run valid ended ref

/-- A pass is exact for the relation that its strategy follows, if its components are not from an earlier one. -/
structure Traces (counter : Counter) (heap : Heap) (settled : Counter) : Prop where
  marking : counter.strategy = .markSweep → ∀ ref, ref ∈ settled.ledger.tracked ↔
    ref ∈ counter.ledger.tracked ∧ counter.ledger.Reached (counter.ledger.Containing heap) ref
  walking : counter.strategy = .incremental → counter.components = none → ∀ ref, ref ∈ settled.ledger.tracked ↔
    ref ∈ counter.ledger.tracked ∧ counter.ledger.Reached counter.ledger.Recording ref

theorem settle_traces (housed : counter.ledger.Housed heap created)
    (passes : counter.ledger.hasPending || counter.eager) (result : (counter.settle heap).result = .ok count) :
    counter.Traces heap (counter.settle heap).counter := by
  have cleared : counter.cleared.ledger.Housed heap created := housed.cleared
  unfold settle at result ⊢
  rw [if_pos passes] at result ⊢
  simp only at result ⊢
  constructor
  · intro marking
    simp only [marking] at result ⊢
    exact tracked_of_marking cleared result
  · intro walking fresh
    simp only [walking] at result ⊢
    exact tracked_of_walking cleared.valid fresh result

end Counter

end Reclaim
