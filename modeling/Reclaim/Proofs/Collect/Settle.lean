import Reclaim.Proofs.Collect.Sweep
import Reclaim.Proofs.Graph.Components

/-! Settling is exact under either strategy. A pass collects the tracked values that are not live
and nothing else, and it is refused only if the total does not cover their children. -/

set_option autoImplicit false

namespace Reclaim

namespace Counter

variable {counter : Counter} {heap : Heap} {created : Nat} {owed : List Due}

/-- The ledger agrees with the heap, and cached components decompose the present owner graph. -/
structure Sound (counter : Counter) (heap : Heap) (created : Nat) (owed : List Due) : Prop where
  ledger : counter.ledger.Sound heap created owed
  cached : ∀ components, counter.components = some components →
    counter.ledger.ownerGraph.Decomposition components
  uncached : counter.strategy = .markSweep → counter.components = none

structure Collects (counter : Counter) (heap : Heap) (created : Nat) (refs : List Ref)
    (settlement : Settlement) : Prop where
  collects : counter.ledger.Collects heap created refs
    { ledger := settlement.counter.ledger, heap := settlement.heap, removed := settlement.removed }
  complete : ∀ ref, ref ∈ refs ↔ ref ∈ counter.ledger.tracked ∧ ¬counter.ledger.Live heap ref
  sound : settlement.counter.Sound settlement.heap created []
  result : settlement.result = .ok settlement.counter.ledger.total
  retained : settlement.counter.stats.retained = settlement.counter.ledger.trackedCount
  collected : settlement.counter.stats.collected = true
  strategy : settlement.counter.strategy = counter.strategy
  eager : settlement.counter.eager = counter.eager

/-- A pass was refused, because dead values have more children than there are references. -/
structure Refuses (counter : Counter) (heap : Heap) (settlement : Settlement) : Prop where
  result : settlement.result = .error .totalUnderflow
  dead : ∃ refs : List Ref, refs.Nodup ∧
    (∀ ref ∈ refs, ref ∈ counter.ledger.tracked ∧ ¬counter.ledger.Live heap ref) ∧
    counter.ledger.total < heap.childTotal refs

theorem settleByMarking_exact (sound : counter.Sound heap created [])
    (marking : counter.strategy = .markSweep) :
    (∃ refs, counter.Collects heap created refs (counter.settleByMarking heap)) ∨
      counter.Refuses heap (counter.settleByMarking heap) := by
  have agrees := sound.ledger
  have nodup : (counter.ledger.dead heap).Nodup := Digraph.nodup_unreached
  have dead := agrees.mem_items_dead
  unfold settleByMarking
  by_cases covered : heap.childTotal (counter.ledger.items (counter.ledger.dead heap)) ≤
      counter.ledger.total
  -- All dead values are one batch, and what contains a dead value is dead itself.
  · have enclosed : ∀ owner item, heap.Contains owner item →
        item ∈ counter.ledger.items (counter.ledger.dead heap) →
          owner ∈ counter.ledger.items (counter.ledger.dead heap) := by
      intro owner item contains member
      refine (dead owner).mpr ⟨(agrees.tracked_of_contains contains).1, fun live => ?_⟩
      exact ((dead item).mp member).2 (live.child contains)
    obtain ⟨removal, reclaimed, collects, _⟩ := agrees.collects nodup Ledger.occupied_of_mem_dead
      enclosed (fun ref member => ((dead ref).mp member).2) covered
    rw [reclaimed]
    have none := sound.uncached marking
    refine .inl ⟨_, collects, dead, ⟨collects.sound, fun components present => ?_, fun _ => none⟩,
      rfl, rfl, rfl, rfl, rfl⟩
    rw [show counter.components = some components from present] at none
    cases none
  · have short := Nat.not_le.mp covered
    rw [agrees.reclaim_refused Ledger.occupied_of_mem_dead short]
    exact .inr ⟨rfl, _, agrees.valid.nodup_items nodup, fun ref => (dead ref).mp, short⟩

theorem settleByComponents_exact (sound : counter.Sound heap created [])
    (walking : counter.strategy = .incremental) :
    (∃ refs, counter.Collects heap created refs (counter.settleByComponents heap)) ∨
      counter.Refuses heap (counter.settleByComponents heap) := by
  have decomposition : counter.ledger.ownerGraph.Decomposition
      (counter.components.getD counter.ledger.ownerGraph.components) := by
    cases cached : counter.components with
    | none => exact Digraph.decomposition_components counter.ledger.ownerGraph
    | some components => exact sound.cached components cached
  let start : Sweep := { removal := { ledger := counter.ledger, heap } }
  have progress : start.Progress counter.ledger heap created []
      (counter.components.getD counter.ledger.ownerGraph.components) :=
    { collects := .none sound.ledger
      decomposition
      live_iff := fun slot => by simp [start]
      alive := fun slot member => by simp [start] at member }
  unfold settleByComponents
  obtain ⟨last, refs, ended, progress⟩ | ⟨last, refs, ended, nodup, dead, short⟩ :=
    Sweep.run_progress _ progress
  · simp only [start] at ended
    simp only [ended]
    refine .inl ⟨refs, progress.collects, progress.mem_refs, ⟨progress.collects.sound, ?_, ?_⟩, rfl,
      rfl, rfl, rfl, rfl⟩
    · rintro components ⟨⟩
      exact List.append_nil last.kept ▸ progress.decomposition
    · intro marking
      cases walking.symm.trans marking
  · simp only [start] at ended
    simp only [ended]
    exact .inr ⟨rfl, refs, nodup, dead, short⟩

def cleared (counter : Counter) : Counter :=
  { counter with ledger := { counter.ledger with pending := ∅ } }

theorem Sound.cleared (sound : counter.Sound heap created owed) :
    counter.cleared.Sound heap created owed :=
  ⟨sound.ledger.settled, sound.cached, sound.uncached⟩

theorem skip_of_idle (idle : ¬(counter.ledger.hasPending || counter.eager)) :
    counter.settle heap = counter.skip heap := by
  unfold settle
  rw [if_neg idle]

/-- A settle that runs a pass collects what is dead or is refused. -/
theorem settle_exact (sound : counter.Sound heap created [])
    (passes : counter.ledger.hasPending || counter.eager) :
    (∃ refs, counter.cleared.Collects heap created refs (counter.settle heap)) ∨
      counter.cleared.Refuses heap (counter.settle heap) := by
  unfold settle
  rw [if_pos passes]
  simp only
  split
  next marking => exact settleByMarking_exact sound.cleared marking
  next walking => exact settleByComponents_exact sound.cleared walking

theorem Sound.settle_cases {count : Nat} (sound : counter.Sound heap created [])
    (settled : (counter.settle heap).result = .ok count) :
    (∃ refs, counter.cleared.Collects heap created refs (counter.settle heap)) ∨
      counter.settle heap = counter.skip heap := by
  by_cases passes : counter.ledger.hasPending || counter.eager
  · refine .inl ((settle_exact sound passes).resolve_right fun refuses => ?_)
    rw [refuses.result] at settled
    cases settled
  · exact .inr (skip_of_idle passes)

theorem Sound.settle_error {error : LedgerError} (sound : counter.Sound heap created [])
    (failed : (counter.settle heap).result = .error error) : error = .totalUnderflow := by
  by_cases passes : counter.ledger.hasPending || counter.eager
  · obtain ⟨refs, collects⟩ | refuses := settle_exact sound passes
    · cases collects.result.symm.trans failed
    · cases refuses.result.symm.trans failed
      rfl
  · rw [skip_of_idle passes] at failed
    cases failed

theorem Sound.settle {count : Nat} (sound : counter.Sound heap created [])
    (settled : (counter.settle heap).result = .ok count) :
    (counter.settle heap).counter.Sound (counter.settle heap).heap created [] := by
  obtain ⟨refs, collects⟩ | skipped := sound.settle_cases settled
  · exact collects.sound
  · rw [skipped]
    exact ⟨sound.ledger, sound.cached, sound.uncached⟩

theorem fixed_settle : (counter.settle heap).counter.strategy = counter.strategy ∧
    (counter.settle heap).counter.eager = counter.eager := by
  unfold settle
  split
  · simp only
    split
    · unfold settleByMarking
      split <;> exact ⟨rfl, rfl⟩
    · unfold settleByComponents
      simp only
      split <;> exact ⟨rfl, rfl⟩
  · exact ⟨rfl, rfl⟩

theorem eager_settle : (counter.settle heap).counter.eager = counter.eager := fixed_settle.2

structure Leaves (counter : Counter) (heap : Heap) (refs : List Ref) (settlement : Settlement) :
    Prop where
  dead : ∀ ref ∈ refs, ref ∈ counter.ledger.tracked ∧ ¬counter.ledger.Live heap ref
  tracked : ∀ ref, ref ∈ settlement.counter.ledger.tracked ↔ ref ∈ counter.ledger.tracked ∧ ref ∉ refs
  released : settlement.heap = heap.releaseAll refs
  removed : settlement.removed = refs.map fun ref => (ref, heap.childCount ref)
  result : settlement.result = .ok settlement.counter.ledger.total
  retained : settlement.counter.stats.retained = settlement.counter.ledger.trackedCount

theorem Collects.leaves {refs : List Ref} {settlement : Settlement}
    (collects : counter.cleared.Collects heap created refs settlement) :
    counter.Leaves heap refs settlement where
  dead := collects.collects.dead
  tracked := collects.collects.tracked_iff
  released := collects.collects.removes.released
  removed := collects.collects.removes.removed
  result := collects.result
  retained := collects.retained

theorem leaves_skip : counter.Leaves heap [] (counter.skip heap) where
  dead _ member := nomatch member
  tracked ref := by simp [skip]
  released := rfl
  removed := rfl
  result := rfl
  retained := rfl

theorem Sound.leaves {count : Nat} (sound : counter.Sound heap created [])
    (settled : (counter.settle heap).result = .ok count) :
    ∃ refs, counter.Leaves heap refs (counter.settle heap) := by
  obtain ⟨refs, collects⟩ | skipped := sound.settle_cases settled
  · exact ⟨refs, collects.leaves⟩
  · rw [skipped]
    exact ⟨[], leaves_skip⟩

end Counter

end Reclaim
