import Reclaim.Proofs.Collect.Tracing
import Reclaim.Proofs.World.Formation
import Reclaim.Proofs.World.Soundness

/-! Passes in runs of any calls. The host may have told the counter of edges that no container has, and of none
that one has: a pass keeps what the relation that it follows leads to from the held values. -/

set_option autoImplicit false

namespace Reclaim

namespace World

variable {after : World} {reply : Answer}

/-- A pass that succeeds keeps exactly the tracked values that it reaches from held ones: a marking pass by
contents, and one that computes its components again by recorded edges. -/
theorem pass_exact (settings : Settings) (listener : Listener) (calls : List Call)
    (passes : ((settings.world listener).after calls).counter.ledger.hasPending || settings.eager)
    (settled : ((settings.world listener).after calls).perform .settle = (after, .ok reply)) :
    ((settings.world listener).after calls).counter.Traces ((settings.world listener).after calls).heap
      after.counter := by
  have housed := housed_after settings listener calls
  rw [← (fixed_after settings listener calls).2] at passes
  obtain ⟨_, result, _, counter, _⟩ := settle_ok settled
  rw [counter]
  exact Counter.settle_traces housed passes result

/-- A held array contains one array and is recorded as the owner of another. -/
def dividedCalls : List Call :=
  [.newContainer (.list .array), .newContainer (.list .array), .newContainer (.list .array),
    .addHolds (.shared (.container 0)) 1, .push 0 (.shared (.container 1)), .register (.shared (.container 1)),
    .addEdge (.shared (.container 2)) (.shared (.container 0))]

def dividedWorld (strategy : Strategy) : World :=
  (({ strategy } : Settings).world .absent).after dividedCalls

-- Marking keeps the array that is contained, a walk the one whose edge is recorded.
theorem pass_exact_divided : ∃ marked walked : World,
    (dividedWorld .markSweep).perform .settle = (marked, .ok (.number 2)) ∧
      (dividedWorld .incremental).perform .settle = (walked, .ok (.number 2)) ∧
      (∀ ref, ref ∈ marked.counter.ledger.tracked ↔ ref ∈ (dividedWorld .markSweep).counter.ledger.tracked ∧
        (dividedWorld .markSweep).counter.ledger.Reached
          ((dividedWorld .markSweep).counter.ledger.Containing (dividedWorld .markSweep).heap) ref) ∧
      ∀ ref, ref ∈ walked.counter.ledger.tracked ↔ ref ∈ (dividedWorld .incremental).counter.ledger.tracked ∧
        (dividedWorld .incremental).counter.ledger.Reached (dividedWorld .incremental).counter.ledger.Recording ref := by
  have marks : ((dividedWorld .markSweep).perform .settle).2 = .ok (.number 2) := by decide +kernel
  have walks : ((dividedWorld .incremental).perform .settle).2 = .ok (.number 2) := by decide +kernel
  refine ⟨_, _, Prod.ext rfl marks, Prod.ext rfl walks, ?_, ?_⟩
  · exact (pass_exact { strategy := .markSweep } .absent dividedCalls (by decide +kernel) (Prod.ext rfl marks)).marking
      (by decide +kernel)
  · exact (pass_exact { strategy := .incremental } .absent dividedCalls (by decide +kernel)
      (Prod.ext rfl walks)).walking (by decide +kernel) (by decide +kernel)

end World

end Reclaim
