import Reclaim.Proofs.World.Unpaired

/-! What settles leave alone, in runs of any calls. A value that stays in the ledger is as it was, and so
is one that was not in it; what leaves the ledger is released. -/

set_option autoImplicit false

namespace Reclaim

namespace World

variable {world : World}

theorem drained_after (calls : List Call) (orderly : world.counter.Orderly)
    (drained : world.heap.Drained) : (world.after calls).heap.Drained := by
  induction calls generalizing world with
  | nil => exact drained
  | cons call rest ih =>
    refine ih (orderly_perform orderly call) ?_
    by_cases settles : call = .settle
    · subst settles
      have sheds : world.counter.Sheds world.heap _ := Counter.settle_sheds orderly.valid orderly.nodup
      have released : (world.perform .settle).1.heap = _ := sheds.released
      exact released ▸ drained.releaseAll _
    · obtain ⟨_, change⟩ := change_perform world settles
      exact drained.change change

/-- What is tracked is as it was, and so is what was not tracked before. The rest has been released. -/
structure Spares (before after : World) : Prop where
  slot : ∀ ref ∈ after.counter.ledger.tracked, ∃ slot,
    before.counter.ledger.slot? ref.id = some slot ∧ after.counter.ledger.slot? ref.id = some slot
  held : ∀ ref ∈ after.counter.ledger.tracked,
    after.counter.ledger.held (.shared ref) = before.counter.ledger.held (.shared ref)
  edges : ∀ item ∈ after.counter.ledger.tracked, ∀ owner ∈ after.counter.ledger.tracked,
    after.counter.ledger.edges (.shared item) (.shared owner) =
      before.counter.ledger.edges (.shared item) (.shared owner)
  tracked : ∀ ref ∈ after.counter.ledger.tracked,
    ref ∈ before.counter.ledger.tracked ∧ before.heap.SameAt after.heap ref
  untracked : ∀ ref, ref ∉ before.counter.ledger.tracked → before.heap.SameAt after.heap ref
  released : ∀ ref ∈ before.counter.ledger.tracked, ref ∉ after.counter.ledger.tracked →
    after.heap.Vacant ref

theorem spares_settle (orderly : world.counter.Orderly) (drained : world.heap.Drained) :
    world.Spares world.settle.1 := by
  have sheds : world.counter.Sheds world.heap _ := Counter.settle_sheds orderly.valid orderly.nodup
  have kept := sheds.ledger.tracked_iff
  have released : world.settle.1.heap = _ := sheds.released
  constructor
  · intro ref tracked
    obtain ⟨slot, after, before, _⟩ := sheds.ledger.slot?_of_tracked orderly.valid tracked
    exact ⟨slot, before, after⟩
  · exact fun ref => sheds.ledger.held_eq orderly.valid
  · exact fun item tracked owner => sheds.ledger.edges_eq orderly.valid tracked
  · intro ref tracked
    obtain ⟨before, stays⟩ := (kept ref).mp tracked
    exact ⟨before, released ▸ Heap.sameAt_releaseAll stays⟩
  · intro ref untracked
    exact released ▸ Heap.sameAt_releaseAll fun member => untracked (sheds.ledger.included ref member)
  · intro ref tracked gone
    rw [released]
    refine drained.vacant_releaseAll (Classical.byContradiction fun stays => gone ?_)
    exact (kept ref).mpr ⟨tracked, stays⟩

/-- Whatever has been done before, and whatever a settle answers: a value that is still tracked keeps its
slot, its holds, its contents and its edges to others like it, a value that was not tracked is unchanged,
and what is tracked no more has been released. -/
theorem settle_spares (settings : Settings) (listener : Listener) (calls : List Call) :
    ((settings.world listener).after calls).Spares
      (((settings.world listener).after calls).perform .settle).1 := by
  have drained : (settings.world listener).heap.Drained := fun id released => by
    simp [Settings.world, Heap.buffer] at released
  exact spares_settle (orderly_after settings listener calls)
    (drained_after calls (orderly_after settings listener []) drained)

end World

end Reclaim
