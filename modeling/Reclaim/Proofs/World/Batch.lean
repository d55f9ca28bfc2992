import Reclaim.Proofs.Ledger.Batch
import Reclaim.Proofs.World.Formation

/-! Batches in runs of any calls. A pass puts the pending slots aside and then removes one batch after another;
whatever ledger and heap it has come to by then, a batch of slots in use goes as a whole or stays as a whole. -/

set_option autoImplicit false

namespace Reclaim

namespace Ledger

variable {ledger : Ledger} {heap : Heap} {created : Nat} {batch : List Slot} {removal : Removal}

theorem Housed.reclaim (housed : ledger.Housed heap created) (nodup : batch.Nodup)
    (reclaimed : ledger.reclaim heap batch = .ok removal) : removal.ledger.Housed removal.heap created := by
  have cuts := housed.valid.cuts nodup reclaimed
  have present : ∀ ref ∈ ledger.items batch, heap.holds (.shared ref) := fun ref member =>
    housed.present ref (tracked_of_items member)
  refine ⟨cuts.released ▸ housed.formed.releaseAll present, cuts.valid, fun ref tracked => ?_⟩
  rw [cuts.released, Heap.holds_releaseAll present]
  exact housed.present ref ((cuts.tracked_iff housed.valid).mp tracked).1

/-- What a removal can start from: the ledger and the heap of a run of any calls, with its pending slots or
without them, and what removals before have left of these. -/
inductive Arises : Ledger → Heap → Prop
  | run (settings : Settings) (listener : Listener) (calls : List Call) :
      Arises ((settings.world listener).after calls).counter.ledger ((settings.world listener).after calls).heap
  | pass {ledger : Ledger} {heap : Heap} : Arises ledger heap → Arises { ledger with pending := ∅ } heap
  | removal {ledger : Ledger} {heap : Heap} {batch : List Slot} {removal : Removal} : Arises ledger heap →
      batch.Nodup → ledger.reclaim heap batch = .ok removal → Arises removal.ledger removal.heap

theorem Arises.housed (arises : Arises ledger heap) : ∃ created, ledger.Housed heap created := by
  induction arises with
  | run settings listener calls => exact ⟨_, World.housed_after settings listener calls⟩
  | pass _ ih =>
    obtain ⟨created, housed⟩ := ih
    exact ⟨created, housed.cleared⟩
  | removal _ nodup reclaimed ih =>
    obtain ⟨created, housed⟩ := ih
    exact ⟨created, housed.reclaim nodup reclaimed⟩

/-- A batch is removed exactly if the edges from it are those of the contents and the total covers the children;
otherwise nothing changes. -/
theorem batch_removal (arises : Arises ledger heap) (nodup : batch.Nodup)
    (occupied : ∀ slot ∈ batch, ledger.entries[slot]?.isSome) : ledger.BatchRemoval heap batch := by
  obtain ⟨created, housed⟩ := arises.housed
  exact housed.batchRemoval nodup occupied

/-- Two arrays that contain each other, one of which contains a held third array twice. -/
def ringCalls : List Call :=
  [.newContainer (.list .array), .newContainer (.list .array), .newContainer (.list .array),
    .push 0 (.shared (.container 1)), .addEdge (.shared (.container 1)) (.shared (.container 0)),
    .push 1 (.shared (.container 0)), .addEdge (.shared (.container 0)) (.shared (.container 1)),
    .push 0 (.shared (.container 2)), .addEdge (.shared (.container 2)) (.shared (.container 0)),
    .push 0 (.shared (.container 2)), .addEdge (.shared (.container 2)) (.shared (.container 0)),
    .addHolds (.shared (.container 2)) 1]

def ringWorld : World := (({} : Settings).world .absent).after ringCalls

theorem batch_removal_ring : ∃ removal, ringWorld.counter.ledger.reclaim ringWorld.heap [1, 0] = .ok removal ∧
    removal.ledger.total = 1 ∧ ringWorld.counter.ledger.Reclaims ringWorld.heap [1, 0] removal := by
  have outcome : ringWorld.counter.ledger.BatchRemoval ringWorld.heap [1, 0] :=
    batch_removal (.run {} .absent ringCalls) (by decide) (by decide +kernel)
  have succeeds : (ringWorld.counter.ledger.reclaim ringWorld.heap [1, 0]).isOk = true := by decide +kernel
  cases removed : ringWorld.counter.ledger.reclaim ringWorld.heap [1, 0] with
  | error error =>
    rw [removed] at succeeds
    cases succeeds
  | ok removal =>
    have effect := outcome.effect removal removed
    have children : ringWorld.heap.childTotal (ringWorld.counter.ledger.items [1, 0]) = 4 := by decide +kernel
    have before : ringWorld.counter.ledger.total = 5 := by decide +kernel
    have total := effect.total
    exact ⟨removal, rfl, by omega, effect⟩

end Ledger

end Reclaim
