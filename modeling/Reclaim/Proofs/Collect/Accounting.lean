import Reclaim.Proofs.Collect.Listing
import Reclaim.Proofs.Ledger.Agreement

/-! What a settle reports, also where counter and heap disagree: each value that it takes out, once, with
the number of children that the value had before, wherever in the walk its component stood. -/

set_option autoImplicit false

namespace Reclaim

namespace Heap

variable {heap : Heap} {records more : List (Ref × Nat)}

structure Counts (heap : Heap) (records : List (Ref × Nat)) : Prop where
  nodup : (records.map Prod.fst).Nodup
  counted : ∀ record ∈ records, record.2 = heap.childCount record.1

theorem counts_map {refs : List Ref} (nodup : refs.Nodup) :
    heap.Counts (refs.map fun ref => (ref, heap.childCount ref)) where
  nodup := by
    rw [List.map_map]
    exact (List.map_id refs).symm ▸ nodup
  counted record member := by
    obtain ⟨ref, _, rfl⟩ := List.mem_map.mp member
    rfl

theorem Counts.append (counts : heap.Counts records)
    (later : (heap.releaseAll (records.map Prod.fst)).Counts more)
    (apart : ∀ ref ∈ more.map Prod.fst, ref ∉ records.map Prod.fst) : heap.Counts (records ++ more) where
  nodup := by
  -- Values that are released later were not emptied by the releases before.
    rw [List.map_append]
    exact List.nodup_append'.mpr ⟨counts.nodup, later.nodup, fun ref member other => apart ref other member⟩
  counted record member := by
    rcases List.mem_append.mp member with earlier | later'
    · exact counts.counted record earlier
    · have kept := apart record.1 (List.mem_map_of_mem later')
      rw [later.counted record later', childCount_releaseAll kept]

end Heap

theorem Ledger.Cuts.counts {ledger : Ledger} {heap : Heap} {batch : List Slot} {removal : Removal}
    (cuts : ledger.Cuts heap batch removal) (valid : ledger.Valid) (nodup : batch.Nodup) :
    heap.Counts removal.removed :=
  cuts.removed ▸ Heap.counts_map (valid.nodup_items nodup)

/-- A walk has reported what it has removed since it started, and counted it as it was then. -/
structure Sweep.Accounts (start : Removal) (sweep : Sweep) (rest : List Component) : Prop where
  nodup : ∀ component ∈ rest, component.Nodup
  sheds : start.Sheds sweep.removal.removed sweep.removal
  counts : start.heap.Counts sweep.removal.removed

theorem Sweep.Accounts.resolve {start : Removal} {sweep next : Sweep} {component : Component}
    {rest : List Component} (accounts : Accounts start sweep (component :: rest))
    (resolved : sweep.resolve component = .ok next) : Accounts start next rest := by
  obtain ⟨here, later⟩ := List.forall_mem_cons.mp accounts.nodup
  obtain ⟨_, rfl⟩ | ⟨removal, reclaimed, rfl⟩ := resolve_ok resolved
  · exact ⟨later, accounts.sheds, accounts.counts⟩
  · have valid := accounts.sheds.ledger.valid
    have cuts := valid.cuts here reclaimed
    have sheds : sweep.removal.Sheds removal.removed (sweep.drop removal).removal :=
      ⟨cuts.sheds valid, cuts.refs ▸ cuts.released, rfl⟩
    refine ⟨later, accounts.sheds.trans sheds, accounts.counts.append ?_ fun ref member => ?_⟩
    · exact accounts.sheds.released ▸ cuts.counts valid here
    · exact ((accounts.sheds.ledger.tracked_iff ref).mp (sheds.ledger.included ref member)).2

namespace Counter

variable {counter : Counter} {heap : Heap} {count : Nat}

theorem settleByMarking_counts (valid : counter.ledger.Valid) :
    heap.Counts (counter.settleByMarking heap).removed := by
  unfold settleByMarking
  cases reclaimed : counter.ledger.reclaim heap (counter.ledger.dead heap) with
  | error error => exact ⟨List.nodup_nil, fun _ member => nomatch member⟩
  | ok removal =>
    have nodup : (counter.ledger.dead heap).Nodup := Digraph.nodup_unreached
    exact (valid.cuts nodup reclaimed).counts valid nodup

theorem settleByComponents_counts (valid : counter.ledger.Valid) (caches : counter.Caches List.Nodup)
    (result : (counter.settleByComponents heap).result = .ok count) :
    heap.Counts (counter.settleByComponents heap).removed := by
  let start : Sweep := { removal := { ledger := counter.ledger, heap } }
  have begun : Sweep.Accounts start.removal start _ :=
    ⟨caches.getD nodup_components, ⟨.refl valid, rfl, rfl⟩, List.nodup_nil, fun _ member => nomatch member⟩
  revert result
  unfold settleByComponents
  simp only
  split
  next => exact nofun
  next sweep ended =>
    intro _
    exact (Sweep.run_induction (Sweep.Accounts start.removal)
      (fun _ _ _ _ resolved accounts => accounts.resolve resolved) begun ended).counts

theorem settle_counts (valid : counter.ledger.Valid) (caches : counter.Caches List.Nodup)
    (result : (counter.settle heap).result = .ok count) : heap.Counts (counter.settle heap).removed := by
  have idle : counter.cleared.ledger.Valid := valid.unmark fun _ member => nomatch member
  revert result
  unfold settle
  split
  · simp only
    split
    · exact fun _ => settleByMarking_counts idle
    · have caches : counter.cleared.Caches List.Nodup := caches
      exact settleByComponents_counts idle caches
  · exact fun _ => ⟨List.nodup_nil, fun _ member => nomatch member⟩

theorem trackedCount_settle (valid : counter.ledger.Valid) (caches : counter.Caches List.Nodup)
    (result : (counter.settle heap).result = .ok count) :
    counter.ledger.trackedCount =
      (counter.settle heap).removed.length + (counter.settle heap).counter.ledger.trackedCount := by
  have sheds : counter.Sheds heap _ := settle_sheds valid caches
  have perm := valid.tracked_perm sheds.ledger.valid (settle_counts valid caches result).nodup
    sheds.ledger.included sheds.ledger.tracked_iff
  have length := perm.length_eq
  rwa [List.length_append, List.length_map, Ledger.length_tracked, Ledger.length_tracked] at length

theorem stats_settle (result : (counter.settle heap).result = .ok count) :
    (counter.settle heap).counter.stats.removed = (counter.settle heap).removed.length ∧
    (counter.settle heap).counter.stats.retained = (counter.settle heap).counter.ledger.trackedCount ∧
    (counter.settle heap).counter.stats.total = (counter.settle heap).counter.ledger.total := by
  revert result
  unfold settle
  split
  · simp only
    split
    · unfold settleByMarking
      split
      next => exact nofun
      next => exact fun _ => ⟨rfl, rfl, rfl⟩
    · unfold settleByComponents
      simp only
      split
      next => exact nofun
      next => exact fun _ => ⟨rfl, rfl, rfl⟩
  · exact fun _ => ⟨rfl, rfl, rfl⟩

end Counter

end Reclaim
