import Reclaim.Proofs.Collect.Accounting
import Reclaim.Proofs.World.Soundness
import Reclaim.Proofs.World.Unpaired

/-! The accounts of settles that succeed, in runs of any calls: what the recorder is told, what leaves the
ledger, what the total loses and what the figures say are the same. -/

set_option autoImplicit false

namespace Reclaim

theorem Settlement.events_of_ok {settlement : Settlement} {count : Nat}
    (succeeded : settlement.result = .ok count) :
    settlement.events = settlement.removed.map (fun (ref, children) => .collected ref children) ++
      if settlement.counter.stats.collected then [.settled settlement.counter.stats] else [] := by
  rw [events, announced, succeeded]
  simp only
  split <;> rfl

namespace World

variable {before after : World} {reported : List (Ref × Nat)} {reply : Answer}

structure Accounts (before : World) (reported : List (Ref × Nat)) (after : World) : Prop where
  events : after.events = before.events ++
    (reported.map (fun (ref, children) => .collected ref children) ++
      if after.counter.stats.collected then [.settled after.counter.stats] else [])
  nodup : (reported.map Prod.fst).Nodup
  mem_iff : ∀ ref, ref ∈ reported.map Prod.fst ↔
    ref ∈ before.counter.ledger.tracked ∧ ref ∉ after.counter.ledger.tracked
  counted : ∀ record ∈ reported, record.2 = before.heap.childCount record.1
  total : before.counter.ledger.total =
    (reported.map Prod.snd).sum + after.counter.ledger.total
  tracked : before.counter.ledger.trackedCount = reported.length + after.counter.ledger.trackedCount
  removed : after.counter.stats.removed = reported.length
  retained : after.counter.stats.retained = after.counter.ledger.trackedCount
  remaining : after.counter.stats.total = after.counter.ledger.total

theorem accounts_settle {count : Nat} (orderly : before.counter.Orderly)
    (recording : before.listener = .recorder)
    (result : (before.counter.settle before.heap).result = .ok count) :
    before.Accounts (before.counter.settle before.heap).removed before.settle.1 := by
  have sheds : before.counter.Sheds before.heap _ := Counter.settle_sheds orderly.valid orderly.nodup
  have counts := Counter.settle_counts orderly.valid orderly.nodup result
  obtain ⟨removed, retained, remaining⟩ := Counter.stats_settle result
  refine ⟨?_, counts.nodup, fun ref => ?_, counts.counted, ?_, ?_, removed, retained, remaining⟩
  · simp only [settle, if_pos recording, Settlement.events_of_ok result]
  · have kept := sheds.ledger.tracked_iff ref
    constructor
    · exact fun member => ⟨sheds.ledger.included ref member, fun stays => (kept.mp stays).2 member⟩
    · rintro ⟨tracked, gone⟩
      exact Classical.byContradiction fun absent => gone (kept.mpr ⟨tracked, absent⟩)
  · rw [Nat.add_comm]
    exact sheds.ledger.total.symm
  · exact Counter.trackedCount_settle orderly.valid orderly.nodup result

/-- Whatever has been done before, a settle that succeeds reports each value that it takes out of the ledger,
once and with the children that the value had before. The total falls by these children and the number of
tracked values by that of the reports, and the figures say so. -/
theorem settle_accounts (settings : Settings) (listener : Listener) (calls : List Call)
    (recording : ((settings.world listener).after calls).listener = .recorder)
    (settled : ((settings.world listener).after calls).perform .settle = (after, .ok reply)) :
    ∃ reported, ((settings.world listener).after calls).Accounts reported after := by
  have orderly := orderly_after settings listener calls
  generalize (settings.world listener).after calls = before at *
  obtain ⟨count, result, _⟩ := settle_ok settled
  have same : before.settle.1 = after := congrArg Prod.fst settled
  exact ⟨_, same ▸ accounts_settle orderly recording result⟩

/-- Two arrays contain each other, one of them the other twice, and a scalar each. The counter has not been
told of the scalar in the second, and the only hold is on a third array. -/
def knotCalls : List Call :=
  let first : Value := .shared (.container 0)
  let second : Value := .shared (.container 1)
  let scalar : Value := .scalar (.integer 7)
  [.newContainer (.list .array), .newContainer (.list .array), .newContainer (.list .array),
    .push 0 second, .addEdge second first, .push 0 second, .addEdge second first,
    .push 0 scalar, .addEdge scalar first, .push 1 first, .addEdge first second, .push 1 scalar,
    .addHolds (.shared (.container 2)) 1]

theorem settle_accounts_knot :
    let before := (({ strategy := .incremental } : Settings).world .recorder).after knotCalls
    before.listener = .recorder ∧ (before.perform .settle).2 = .ok (.number 0) ∧
      (before.perform .settle).1.events.length = 3 ∧
      ∃ reported, before.Accounts reported (before.perform .settle).1 := by
  intro before
  have recording : before.listener = .recorder := by decide +kernel
  have answered : (before.perform .settle).2 = .ok (.number 0) := by decide +kernel
  exact ⟨recording, answered, by decide +kernel,
    settle_accounts { strategy := .incremental } .recorder knotCalls recording (Prod.ext rfl answered)⟩

end World

end Reclaim
