import Reclaim.Proofs.Collect.Resettling
import Reclaim.Proofs.World.Listing
import Reclaim.Proofs.World.Soundness

/-! Settling twice, in runs of any calls. -/

set_option autoImplicit false

namespace Reclaim

namespace World

variable {first : World} {count : Nat}

/-- Whatever has been done before, a settle right after one that has succeeded gives the same answer. It
reports no value, nothing is pending before or after it, and it leaves the ledger (the values in their
slots, the holds on them, the recorded edges) and the heap as they are. -/
theorem settle_idempotent (settings : Settings) (listener : Listener) (calls : List Call)
    (settled : ((settings.world listener).after calls).perform .settle = (first, .ok (.number count))) :
    first.counter.ledger.hasPending = false ∧ (first.counter.settle first.heap).removed = [] ∧
    ∃ second figures, first.perform .settle = (second, .ok (.number count)) ∧
      second.events = first.events ++ List.map Event.settled figures ∧
      second.counter.ledger = first.counter.ledger ∧ second.heap = first.heap := by
  have orderly := orderly_after settings listener calls
  have lists := lists_after settings listener calls
  generalize (settings.world listener).after calls = world at *
  obtain ⟨_, result, same, counter, heap⟩ := settle_ok settled
  cases same
  have idle : (world.counter.settle world.heap).counter.ledger.pending = ∅ :=
    Counter.pending_settle orderly.valid orderly.nodup
  have total := Counter.total_of_settle result
  have rests := Counter.settle_settle orderly.valid orderly.nodup lists result
  rw [← counter, ← heap] at rests
  rw [← counter] at idle total
  refine ⟨?_, rests.removed, first.settle.1,
    if first.listener = .recorder then (first.counter.settle first.heap).announced.toList else [],
    Prod.ext rfl ?_, ?_, rests.ledger, rests.heap⟩
  · rw [Ledger.hasPending, idle]
    rfl
  · rw [settle_answer rests.result, total]
  · have heard : (first.counter.settle first.heap).events =
        (first.counter.settle first.heap).announced.toList.map .settled := by
      rw [Settlement.events, rests.removed]
      rfl
    unfold World.settle
    simp only [heard]
    split <;> rfl

/-- An array is held, and contains one that is tracked without its edges having been told. -/
def untoldCalls : List Call :=
  [.newContainer (.list .array), .newContainer (.list .array), .addHolds (.shared (.container 0)) 1,
    .push 0 (.shared (.container 1)), .register (.shared (.container 1))]

def untoldSettings : Settings := { strategy := .incremental, eager := true }

-- The walk over components, which knows of no owner, collects the second array. The counter is eager, so
-- that it walks again.
theorem settle_idempotent_untold : ∃ first second : World,
    ((untoldSettings.world .recorder).after untoldCalls).perform .settle = (first, .ok (.number 1)) ∧
      first.perform .settle = (second, .ok (.number 1)) ∧ second.counter.ledger = first.counter.ledger := by
  have answered : (((untoldSettings.world .recorder).after untoldCalls).perform .settle).2 =
      .ok (.number 1) := by decide +kernel
  obtain ⟨_, _, second, _, performed, _, ledger, _⟩ :=
    settle_idempotent untoldSettings .recorder untoldCalls (Prod.ext rfl answered)
  exact ⟨_, second, Prod.ext rfl answered, performed, ledger⟩

end World

end Reclaim
