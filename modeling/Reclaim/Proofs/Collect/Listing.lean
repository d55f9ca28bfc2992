import Reclaim.Proofs.Collect.Cache
import Reclaim.Proofs.Collect.Shedding

/-! Cached components as a list of the slots in use. Also where counter and heap disagree, so that the
cache decomposes nothing, it has every slot in use once and no other slot. -/

set_option autoImplicit false

namespace Reclaim

namespace Ledger

variable {ledger next : Ledger} {heap : Heap} {components before after : List Component}
  {component : Component}

structure Lists (ledger : Ledger) (components : List Component) : Prop where
  nodup : components.flatten.Nodup
  mem_iff : ∀ slot, slot ∈ components.flatten ↔ ledger.entries[slot]?.isSome

theorem lists_components : ledger.Lists ledger.ownerGraph.components where
  nodup := ledger.ownerGraph.decomposition_components.nodup
  mem_iff slot := (ledger.ownerGraph.decomposition_components.mem_iff slot).trans mem_occupied

namespace Lists

theorem congr (lists : ledger.Lists components)
    (same : ∀ slot, next.ownersAt? slot = ledger.ownersAt? slot) : next.Lists components where
  nodup := lists.nodup
  mem_iff slot := by rw [lists.mem_iff, ← isSome_ownersAt?, ← isSome_ownersAt?, same]

theorem track (lists : ledger.Lists components) (valid : ledger.Valid) (ref : Ref) :
    (ledger.track ref).1.Lists (components ++
      (if ledger.isTracked (.shared ref) then none else some (ledger.track ref).2).toList.map ([·])) := by
  have tracked : ledger.isTracked (.shared ref) = (ledger.slot? ref.id).isSome := rfl
  unfold Ledger.track
  rw [tracked]
  cases ledger.slot? ref.id with
  | some slot => simpa using lists
  | none =>
    have fresh : ledger.nextSlot ∉ components.flatten := by
      rw [lists.mem_iff, valid.nextSlot_empty]
      exact Bool.false_ne_true
    have flat : (components ++ [[ledger.nextSlot]]).flatten =
        components.flatten ++ [ledger.nextSlot] := by simp
    refine ⟨flat ▸ ?_, fun slot => ?_⟩
    · refine List.nodup_append.mpr ⟨lists.nodup, List.nodup_singleton _, ?_⟩
      rintro slot listed _ single rfl
      exact fresh (List.mem_singleton.mp single ▸ listed)
    · refine flat ▸ ?_
      rw [List.mem_append, List.mem_singleton, lists.mem_iff]
      simp only
      rw [getElem?_insert]
      by_cases here : ledger.nextSlot = slot
      · simp [here]
      · simp [here, Ne.symm here]

theorem nodup_component (lists : ledger.Lists components) (member : component ∈ components) :
    component.Nodup :=
  (List.nodup_flatten.mp lists.nodup).1 component member

theorem apart (lists : ledger.Lists (before ++ component :: after)) {slot : Slot}
    (member : slot ∈ component) : slot ∉ before.flatten ∧ slot ∉ after.flatten := by
  have nodup := lists.nodup
  rw [List.flatten_append, List.flatten_cons, List.nodup_append] at nodup
  obtain ⟨_, later, earlier⟩ := nodup
  constructor
  · intro listed
    exact earlier slot listed slot (List.mem_append_left _ member) rfl
  · intro listed
    exact (List.nodup_append.mp later).2.2 slot member slot listed rfl

/-- Where a component has been removed, the others list what is left. -/
theorem cuts {removal : Removal} (lists : ledger.Lists (before ++ component :: after))
    (cuts : ledger.Cuts heap component removal) : removal.ledger.Lists (before ++ after) where
  nodup := by
    have fewer := (List.sublist_append_right component after.flatten).append_left before.flatten
    rw [List.flatten_append]
    exact lists.nodup.sublist (by rwa [List.flatten_append, List.flatten_cons])
  mem_iff slot := by
    have listed := lists.mem_iff slot
    rw [List.flatten_append, List.flatten_cons, List.mem_append, List.mem_append] at listed
    rw [cuts.entries, List.flatten_append, List.mem_append]
    by_cases inside : slot ∈ component
    · have outside := lists.apart inside
      simp [inside, outside]
    · rw [if_neg inside, Option.isSome_map, ← listed]
      simp [inside]

end Lists

end Ledger

namespace Sweep

variable {sweep last : Sweep} {component : Component} {components rest : List Component}

def keep (sweep : Sweep) (component : Component) : Sweep :=
  { sweep with live := sweep.live.insertMany component, kept := sweep.kept ++ [component] }

def drop (sweep : Sweep) (removal : Removal) : Sweep :=
  { sweep with removal := { removal with removed := sweep.removal.removed ++ removal.removed } }

theorem resolve_ok {next : Sweep} (resolved : sweep.resolve component = .ok next) :
    (sweep.isLive component = true ∧ next = sweep.keep component) ∨
    ∃ removal, sweep.removal.ledger.reclaim sweep.removal.heap component = .ok removal ∧
      next = sweep.drop removal := by
  unfold resolve at resolved
  split at resolved
  next live => exact .inl ⟨live, (Except.ok.inj resolved).symm⟩
  next =>
    obtain ⟨removal, reclaimed, same⟩ := ok_of_map resolved
    exact .inr ⟨removal, reclaimed, same.symm⟩

/-- What each resolved component keeps of a walk and of what is left for it holds when nothing is left. -/
theorem run_induction (Keeps : Sweep → List Component → Prop)
    (step : ∀ sweep component rest next, sweep.resolve component = .ok next →
      Keeps sweep (component :: rest) → Keeps next rest)
    (start : Keeps sweep components) (ended : sweep.run components = (last, none)) : Keeps last [] := by
  induction components generalizing sweep with
  | nil =>
    cases ended
    exact start
  | cons component rest ih =>
    unfold run at ended
    cases resolved : sweep.resolve component with
    | error error =>
      rw [resolved] at ended
      cases ended
    | ok next =>
      rw [resolved] at ended
      exact ih (step sweep component rest next resolved start) ended

structure Listing (sweep : Sweep) (rest : List Component) : Prop where
  valid : sweep.removal.ledger.Valid
  lists : sweep.removal.ledger.Lists (sweep.kept ++ rest)

theorem Listing.cuts {removal : Removal} (listing : sweep.Listing (component :: rest))
    (reclaimed : sweep.removal.ledger.reclaim sweep.removal.heap component = .ok removal) :
    sweep.removal.ledger.Cuts sweep.removal.heap component removal := by
  have member : component ∈ sweep.kept ++ component :: rest := by simp
  exact listing.valid.cuts (listing.lists.nodup_component member) reclaimed

theorem Listing.resolve {next : Sweep} (listing : sweep.Listing (component :: rest))
    (resolved : sweep.resolve component = .ok next) : next.Listing rest := by
  obtain ⟨_, rfl⟩ | ⟨removal, reclaimed, rfl⟩ := resolve_ok resolved
  · have same : sweep.kept ++ [component] ++ rest = sweep.kept ++ component :: rest := by simp
    exact ⟨listing.valid, same ▸ listing.lists⟩
  · have cuts := listing.cuts reclaimed
    have left : removal.ledger.Lists (sweep.kept ++ rest) := listing.lists.cuts cuts
    exact ⟨cuts.valid, left⟩

end Sweep

namespace Counter

variable {counter next : Counter} {heap : Heap} {item : Value} {ledger : Ledger}

/-- Where components are cached, they list the slots in use. Marking caches none. -/
structure Lists (counter : Counter) : Prop where
  cached : ∀ components, counter.components = some components → counter.ledger.Lists components
  uncached : counter.strategy = .markSweep → counter.components = none

theorem Lists.extend (lists : counter.Lists)
    (listed : ∀ components, counter.ledger.Lists components → ledger.Lists (components ++
      (if counter.ledger.isTracked item then none else ledger.slotOf? item).toList.map ([·]))) :
    (counter.extend ledger item).Lists where
  cached components present := by
    obtain ⟨before, known, rfl⟩ := Option.map_eq_some_iff.mp present
    exact listed before (lists.cached before known)
  uncached marking := by
    have none := lists.uncached marking
    simp [Counter.extend, none]

theorem lists_relink : (counter.relink ledger).Lists where
  cached _ present := nomatch present
  uncached _ := rfl

theorem Lists.register (lists : counter.Lists) (valid : counter.ledger.Valid) (item : Value) :
    (counter.register item).Lists := by
  refine lists.extend fun components listed => ?_
  cases item with
  | scalar atom =>
    have same : counter.ledger.register (.scalar atom) = counter.ledger := rfl
    have none : counter.ledger.slotOf? (.scalar atom) = none := rfl
    rw [same]
    simpa [none] using listed
  | shared ref =>
    have located : (counter.ledger.register (.shared ref)).slotOf? (.shared ref) =
        some (counter.ledger.track ref).2 := Ledger.slot?_track counter.ledger ref
    rw [located]
    exact (listed.track valid ref).congr fun _ => rfl

theorem Lists.addHolds {count : Nat} (lists : counter.Lists) (valid : counter.ledger.Valid)
    (added : counter.addHolds item count = .ok next) : next.Lists := by
  obtain ⟨ledger, result, rfl⟩ := addHolds_ok added
  refine lists.extend fun components listed => ?_
  obtain ⟨scalar, same⟩ | ⟨ref, rfl, located, same⟩ := Ledger.ownersAt?_addHolds result
  · have none : ledger.slotOf? item = none := by simp [Ledger.slotOf?, Value.id?, scalar]
    simpa [none] using listed.congr same
  · rw [located]
    exact (listed.track valid ref).congr same

theorem Lists.walked (lists : counter.Lists) :
    counter.ledger.Lists (counter.components.getD counter.ledger.ownerGraph.components) := by
  cases cached : counter.components with
  | none => exact Ledger.lists_components
  | some components => exact lists.cached components cached

theorem Lists.settleByComponents (lists : counter.Lists) (valid : counter.ledger.Valid)
    (walking : counter.strategy = .incremental) : (counter.settleByComponents heap).counter.Lists := by
  have marks : counter.strategy ≠ .markSweep := by simp [walking]
  unfold Counter.settleByComponents
  simp only
  split
  next => exact ⟨fun _ present => (nomatch present), fun _ => rfl⟩
  next sweep ended =>
    have listing := Sweep.run_induction Sweep.Listing
      (fun _ _ _ _ resolved listing => listing.resolve resolved) ⟨valid, lists.walked⟩ ended
    refine ⟨fun components present => ?_, fun marking => absurd marking marks⟩
    cases present
    exact List.append_nil sweep.kept ▸ listing.lists

theorem Lists.cleared (lists : counter.Lists) : counter.cleared.Lists where
  cached components present := (lists.cached components present).congr fun _ => rfl
  uncached := lists.uncached

theorem Lists.settle (lists : counter.Lists) (valid : counter.ledger.Valid) :
    (counter.settle heap).counter.Lists := by
  have idle : counter.cleared.ledger.Valid := valid.unmark fun _ member => nomatch member
  unfold Counter.settle
  split
  · simp only
    split
    next marking =>
      unfold settleByMarking
      simp only
      have none := lists.uncached marking
      split <;> exact ⟨fun _ present => (nomatch none.symm.trans present), fun _ => none⟩
    next walking => exact lists.cleared.settleByComponents idle walking
  · exact ⟨lists.cached, lists.uncached⟩

end Counter

end Reclaim
