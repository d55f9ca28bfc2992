import Reclaim.Proofs.Collect.Listing

/-! A pass right after a pass. What the first has left is found live again: the ways on which it was found
lead through values that stay, and these keep their holds, their contents and the edges between them. So
the second removes nothing, also where the recorded edges are not those of the contents. -/

set_option autoImplicit false

namespace Reclaim

namespace Ledger

variable {ledger : Ledger} {heap : Heap} {removal : Removal} {batch : List Slot} {slot owner : Slot}
  {entry : Entry} {components : List Component} {component : Component}

theorem reclaim_nil : ledger.reclaim heap [] = .ok { ledger, heap } := by
  simp [reclaim, heldByBatch]

namespace Cuts

theorem slot?_eq (cuts : ledger.Cuts heap batch removal) (valid : ledger.Valid) {id : Ident}
    (known : ledger.slot? id = some slot) (outside : slot ∉ batch) :
    removal.ledger.slot? id = some slot := by
  obtain ⟨entry, found, rfl⟩ := valid.entry_of_slot? known
  have after := cuts.entries slot
  rw [if_neg outside, found] at after
  have known := cuts.valid.slot_of_entry after
  exact known

theorem children_eq (cuts : ledger.Cuts heap batch removal) (valid : ledger.Valid)
    (found : ledger.entries[slot]? = some entry) (outside : slot ∉ batch) :
    removal.heap.children entry.item = heap.children entry.item := by
  rw [cuts.released, Heap.children_releaseAll, if_neg (mt (valid.mem_items_iff found).mp outside)]

theorem content_edge (cuts : ledger.Cuts heap batch removal) (valid : ledger.Valid)
    (edge : (ledger.contentGraph heap).Edge owner slot) (ownerOutside : owner ∉ batch)
    (outside : slot ∉ batch) : (removal.ledger.contentGraph removal.heap).Edge owner slot := by
  have stays : ∀ {place : Slot}, place ∈ ledger.occupied → place ∉ batch →
      place ∈ removal.ledger.occupied := by
    intro place occupied outside
    rw [mem_occupied] at occupied ⊢
    rwa [cuts.entries, if_neg outside, Option.isSome_map]
  refine ⟨stays edge.source_mem ownerOutside, stays edge.target_mem outside, ?_⟩
  have listed : slot ∈ ledger.childSlots heap owner := edge.listed
  have after := cuts.entries owner
  show slot ∈ removal.ledger.childSlots removal.heap owner
  unfold childSlots at listed ⊢
  cases found : ledger.entries[owner]? with
  | none =>
    rw [found] at listed
    exact absurd listed List.not_mem_nil
  | some entry =>
    rw [if_neg ownerOutside, found] at after
    rw [after]
    rw [found] at listed
    obtain ⟨child, contained, located⟩ := List.mem_filterMap.mp listed
    obtain ⟨id, named, known⟩ := Option.bind_eq_some_iff.mp located
    refine List.mem_filterMap.mpr ⟨child, ?_, ?_⟩
    · rwa [cuts.children_eq valid found ownerOutside]
    · exact Option.bind_eq_some_iff.mpr ⟨id, named, cuts.slot?_eq valid known outside⟩

theorem mem_roots (cuts : ledger.Cuts heap batch removal) (rooted : slot ∈ ledger.roots)
    (outside : slot ∉ batch) : slot ∈ removal.ledger.roots := by
  obtain ⟨entry, found, held⟩ := Ledger.mem_roots.mp rooted
  have after := cuts.entries slot
  rw [if_neg outside, found] at after
  exact Ledger.mem_roots.mpr ⟨_, after, held⟩

/-- When all that was dead has been removed, nothing is dead. -/
theorem dead_eq_nil (cuts : ledger.Cuts heap (ledger.dead heap) removal) (valid : ledger.Valid) :
    removal.ledger.dead removal.heap = [] := by
  refine List.eq_nil_iff_forall_not_mem.mpr fun slot dead => ?_
  obtain ⟨occupied, unreached⟩ := Digraph.mem_unreached.mp dead
  have outside := cuts.outside (mem_occupied.mp occupied)
  -- What a root leads to is not dead, so none of the slots on the way has been removed.
  have stays : ∀ {root place : Slot}, root ∈ ledger.roots →
      (ledger.contentGraph heap).Reach root place → place ∉ ledger.dead heap := by
    intro root place rooted path dead
    exact (Digraph.mem_unreached.mp dead).2 root rooted path
  have leads : ∀ {root place : Slot}, root ∈ ledger.roots →
      (ledger.contentGraph heap).Reach root place →
        (removal.ledger.contentGraph removal.heap).Reach root place := by
    intro root place rooted path
    induction path with
    | refl present =>
      have root_stays := cuts.mem_roots rooted (stays rooted (.refl present))
      obtain ⟨entry, found, _⟩ := Ledger.mem_roots.mp root_stays
      exact .refl (mem_occupied.mpr (by rw [found]; rfl))
    | tail path edge ih =>
      exact ih.tail (cuts.content_edge valid edge (stays rooted path) (stays rooted (path.tail edge)))
  obtain ⟨before, found, _⟩ := cuts.entry_cases (Option.some_get (mem_occupied.mp occupied)).symm
  refine outside (Digraph.mem_unreached.mpr ⟨mem_occupied.mpr (by rw [found]; rfl), ?_⟩)
  intro root rooted path
  have root_stays : root ∉ ledger.dead heap := by
    obtain ⟨entry, present, _⟩ := Ledger.mem_roots.mp rooted
    exact stays rooted (.refl (mem_occupied.mpr (by rw [present]; rfl)))
  exact unreached root (cuts.mem_roots rooted root_stays) (leads rooted path)

end Cuts

/-- Each component has a member that is held, or owned from a component before it. -/
inductive Sustains (ledger : Ledger) : List Component → Prop where
  | nil : ledger.Sustains []
  | snoc {components : List Component} {component : Component} {slot : Slot} {entry : Entry} :
      ledger.Sustains components → slot ∈ component → ledger.entries[slot]? = some entry →
      (0 < entry.held ∨ ∃ owner ∈ components.flatten, entry.owners[owner]?.isSome) →
      ledger.Sustains (components ++ [component])

/-- The removal of slots outside of them does not take away what sustains components. -/
theorem Sustains.cuts (sustains : ledger.Sustains components)
    (cuts : ledger.Cuts heap batch removal) (apart : ∀ slot ∈ components.flatten, slot ∉ batch) :
    removal.ledger.Sustains components := by
  induction sustains with
  | nil => exact .nil
  | @snoc components component slot entry _ member found reason ih =>
    have flat : (components ++ [component]).flatten = components.flatten ++ component := by simp
    rw [flat] at apart
    have earlier : ∀ slot ∈ components.flatten, slot ∉ batch := fun slot listed =>
      apart slot (List.mem_append_left component listed)
    have after := cuts.entries slot
    rw [if_neg (apart slot (List.mem_append_right _ member)), found] at after
    refine .snoc (ih earlier) member after ?_
    rcases reason with held | ⟨owner, listed, recorded⟩
    · exact .inl held
    · have outside := earlier owner listed
      refine .inr ⟨owner, listed, ?_⟩
      obtain ⟨edges, counted⟩ := Option.isSome_iff_exists.mp recorded
      simp [counted, outside]

end Ledger

namespace Sweep

variable {sweep last next : Sweep} {components rest : List Component} {component : Component}
  {ledger : Ledger} {heap : Heap}

theorem run_append (ended : sweep.run components = (last, none)) :
    sweep.run (components ++ rest) = last.run rest := by
  induction components generalizing sweep with
  | nil => rw [← show sweep = last from congrArg Prod.fst ended, List.nil_append]
  | cons component more ih =>
    rw [List.cons_append, run]
    unfold run at ended
    cases resolved : sweep.resolve component with
    | error error =>
      rw [resolved] at ended
      cases ended
    | ok next =>
      rw [resolved] at ended
      exact ih ended

def Marks (sweep : Sweep) : Prop := ∀ slot, slot ∈ sweep.live ↔ slot ∈ sweep.kept.flatten

theorem Marks.keep (marks : sweep.Marks) : (sweep.keep component).Marks := by
  intro slot
  unfold Sweep.keep
  simp only
  rw [List.flatten_append, List.flatten_singleton, List.mem_append, ← marks]
  simp only [Std.ExtTreeSet.mem_insertMany_list, List.contains_iff_mem]

theorem Marks.resolve (marks : sweep.Marks) (resolved : sweep.resolve component = .ok next) : next.Marks := by
  obtain ⟨_, rfl⟩ | ⟨removal, _, rfl⟩ := resolve_ok resolved
  · exact marks.keep
  · exact marks

/-- A walk over components that sustain each other keeps them all. -/
theorem run_of_sustains (heap : Heap) (sustains : ledger.Sustains components) :
    ∃ last : Sweep, run { removal := { ledger, heap } } components = (last, none) ∧
      last.removal = { ledger, heap } ∧ last.kept = components ∧ last.Marks := by
  induction sustains with
  | nil => exact ⟨_, rfl, rfl, rfl, fun slot => by simp⟩
  | @snoc components component slot entry _ member found reason ih =>
    obtain ⟨last, ended, same, rfl, marks⟩ := ih
    have live : last.isLive component := by
      refine isLive_iff.mpr ⟨slot, member, entry, same ▸ found, ?_⟩
      refine reason.imp_right fun ⟨owner, listed, recorded⟩ => ?_
      exact ⟨owner, (marks owner).mpr listed, recorded⟩
    have resolved : last.resolve component = .ok (last.keep component) := by
      unfold resolve
      rw [if_pos live]
      rfl
    refine ⟨last.keep component, ?_, same, rfl, marks.keep⟩
    rw [run_append ended, run, resolved]
    rfl

/-- What a walk has kept sustains itself in the ledger that is left so far. -/
structure Settling (sweep : Sweep) (rest : List Component) : Prop where
  listing : sweep.Listing rest
  marks : sweep.Marks
  sustains : sweep.removal.ledger.Sustains sweep.kept

theorem Settling.resolve (settling : sweep.Settling (component :: rest))
    (resolved : sweep.resolve component = .ok next) : next.Settling rest := by
  have listing := settling.listing.resolve resolved
  have marks := settling.marks.resolve resolved
  obtain ⟨live, rfl⟩ | ⟨removal, reclaimed, rfl⟩ := resolve_ok resolved
  · obtain ⟨slot, member, entry, found, reason⟩ := isLive_iff.mp live
    refine ⟨listing, marks, settling.sustains.snoc member found ?_⟩
    refine reason.imp_right fun ⟨owner, owning, recorded⟩ => ?_
    exact ⟨owner, (settling.marks owner).mp owning, recorded⟩
  · have cuts := settling.listing.cuts reclaimed
    have apart : ∀ slot ∈ sweep.kept.flatten, slot ∉ component := by
      intro slot kept inside
      exact (settling.listing.lists.apart inside).1 kept
    have left : removal.ledger.Sustains sweep.kept := settling.sustains.cuts cuts apart
    exact ⟨listing, marks, left⟩

end Sweep

structure Settlement.Rests (settlement : Settlement) (counter : Counter) (heap : Heap) : Prop where
  ledger : settlement.counter.ledger = counter.ledger
  heap : settlement.heap = heap
  result : settlement.result = .ok counter.ledger.total
  removed : settlement.removed = []

namespace Counter

variable {counter : Counter} {heap : Heap} {count : Nat}

/-- Nothing that the strategy of a counter looks for is dead. -/
def Settled (counter : Counter) (heap : Heap) : Prop :=
  match counter.strategy with
  | .markSweep => counter.ledger.dead heap = []
  | .incremental =>
    ∃ components, counter.components = some components ∧ counter.ledger.Sustains components

theorem rests_skip : (counter.skip heap).Rests counter heap := ⟨rfl, rfl, rfl, rfl⟩

theorem settleByMarking_rests (none : counter.ledger.dead heap = []) :
    (counter.settleByMarking heap).Rests counter heap := by
  unfold settleByMarking
  rw [none, Ledger.reclaim_nil]
  exact ⟨rfl, rfl, rfl, rfl⟩

theorem settleByComponents_rests {components : List Component}
    (cached : counter.components = some components) (sustains : counter.ledger.Sustains components) :
    (counter.settleByComponents heap).Rests counter heap := by
  obtain ⟨last, ended, same, _⟩ := Sweep.run_of_sustains heap sustains
  unfold settleByComponents
  simp only [cached, Option.getD_some, ended]
  refine ⟨?_, ?_, ?_, ?_⟩
  · exact congrArg Removal.ledger same
  · exact congrArg Removal.heap same
  · exact congrArg (fun removal => Except.ok removal.ledger.total) same
  · exact congrArg Removal.removed same

theorem settle_rests (idle : counter.ledger.pending = ∅)
    (settled : counter.eager = true → counter.Settled heap) : (counter.settle heap).Rests counter heap := by
  have cleared : { counter with ledger := { counter.ledger with pending := ∅ } } = counter := by
    rw [← idle]
  unfold settle
  rw [Ledger.hasPending, idle, cleared]
  cases eager : counter.eager with
  | false => exact rests_skip
  | true =>
    have settled := settled eager
    unfold Settled at settled
    simp only [Std.ExtTreeSet.isEmpty_empty, Bool.not_true, Bool.or_true, if_true]
    cases strategy : counter.strategy with
    | markSweep =>
      simp only [strategy] at settled
      exact settleByMarking_rests settled
    | incremental =>
      simp only [strategy] at settled
      obtain ⟨components, cached, sustains⟩ := settled
      exact settleByComponents_rests cached sustains

theorem settled_of_marking (valid : counter.ledger.Valid) (marking : counter.strategy = .markSweep)
    (result : (counter.settleByMarking heap).result = .ok count) :
    (counter.settleByMarking heap).counter.Settled (counter.settleByMarking heap).heap := by
  unfold settleByMarking at result ⊢
  cases reclaimed : counter.ledger.reclaim heap (counter.ledger.dead heap) with
  | error error =>
    rw [reclaimed] at result
    cases result
  | ok removal =>
    have cuts := valid.cuts Digraph.nodup_unreached reclaimed
    simp only [Settled, finish, marking]
    exact cuts.dead_eq_nil valid

theorem settled_of_walking (valid : counter.ledger.Valid) (lists : counter.Lists)
    (walking : counter.strategy = .incremental)
    (result : (counter.settleByComponents heap).result = .ok count) :
    (counter.settleByComponents heap).counter.Settled (counter.settleByComponents heap).heap := by
  unfold settleByComponents at result ⊢
  simp only at result ⊢
  split at result
  next => cases result
  next sweep ended =>
    have settling := Sweep.run_induction Sweep.Settling
      (fun _ _ _ _ resolved settling => settling.resolve resolved)
      ⟨⟨valid, lists.walked⟩, fun slot => by simp, .nil⟩ ended
    simp only [Settled, finish, walking]
    exact ⟨sweep.kept, rfl, settling.sustains⟩

theorem total_of_settle (result : (counter.settle heap).result = .ok count) :
    (counter.settle heap).counter.ledger.total = count := by
  revert result
  unfold settle
  split
  · simp only
    split
    · unfold settleByMarking
      split
      next => exact nofun
      next => exact Except.ok.inj
    · unfold settleByComponents
      simp only
      split
      next => exact nofun
      next => exact Except.ok.inj
  · exact Except.ok.inj

/-- Where an eager counter settles, another settle would find nothing dead. -/
theorem settled_of_settle (valid : counter.ledger.Valid) (lists : counter.Lists)
    (eager : counter.eager = true) (result : (counter.settle heap).result = .ok count) :
    (counter.settle heap).counter.Settled (counter.settle heap).heap := by
  have idle : counter.cleared.ledger.Valid := valid.unmark fun _ member => nomatch member
  have passes : (counter.ledger.hasPending || counter.eager) = true := by rw [eager, Bool.or_true]
  revert result
  unfold settle
  rw [if_pos passes]
  simp only
  split
  next marking => exact settled_of_marking idle marking
  next walking => exact settled_of_walking idle lists.cleared walking

/-- A settle right after one that has succeeded finds nothing to do and answers the same. -/
theorem settle_settle (valid : counter.ledger.Valid) (caches : counter.Caches List.Nodup)
    (lists : counter.Lists) (result : (counter.settle heap).result = .ok count) :
    ((counter.settle heap).counter.settle (counter.settle heap).heap).Rests
      (counter.settle heap).counter (counter.settle heap).heap := by
  refine settle_rests (pending_settle valid caches) fun eager => ?_
  rw [eager_settle] at eager
  exact settled_of_settle valid lists eager result

end Counter

end Reclaim
