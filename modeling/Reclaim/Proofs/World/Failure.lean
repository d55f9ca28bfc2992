import Reclaim.Proofs.Ledger.Agreement
import Reclaim.Proofs.World.Unpaired

/-! Settles that fail, in runs of any calls. A settle that fails has forgotten what was pending, and what
it had removed by then stays removed. -/

set_option autoImplicit false

namespace Reclaim

namespace World

variable {before after : World} {removed : List (Ref × Nat)} {error : CallError}

structure Untouched (before after : World) : Prop where
  events : after.events = before.events
  heap : after.heap = before.heap
  total : after.counter.ledger.total = before.counter.ledger.total
  tracked : ∀ ref, ref ∈ after.counter.ledger.tracked ↔ ref ∈ before.counter.ledger.tracked
  held : ∀ ref ∈ before.counter.ledger.tracked,
    after.counter.ledger.held (.shared ref) = before.counter.ledger.held (.shared ref)
  edges : ∀ item ∈ before.counter.ledger.tracked, ∀ owner ∈ before.counter.ledger.tracked,
    after.counter.ledger.edges (.shared item) (.shared owner) =
      before.counter.ledger.edges (.shared item) (.shared owner)
  pending : ∀ ref ∈ before.counter.ledger.tracked,
    after.counter.ledger.isPending (.shared ref) = before.counter.ledger.isPending (.shared ref)

/-- Values have been reported, released and taken out of the ledger, each with the references from its
children places. Nothing is pending, and the other values are as before. -/
structure Sheds (before : World) (removed : List (Ref × Nat)) (after : World) : Prop where
  events : after.events = before.events ++
    if before.listener = .recorder then removed.map fun (ref, children) => .collected ref children
    else []
  heap : after.heap = before.heap.releaseAll (removed.map Prod.fst)
  included : ∀ ref ∈ removed.map Prod.fst, ref ∈ before.counter.ledger.tracked
  tracked : ∀ ref, ref ∈ after.counter.ledger.tracked ↔
    ref ∈ before.counter.ledger.tracked ∧ ref ∉ removed.map Prod.fst
  total : after.counter.ledger.total + (removed.map Prod.snd).sum = before.counter.ledger.total
  held : ∀ ref ∈ after.counter.ledger.tracked,
    after.counter.ledger.held (.shared ref) = before.counter.ledger.held (.shared ref)
  edges : ∀ item ∈ after.counter.ledger.tracked, ∀ owner ∈ after.counter.ledger.tracked,
    after.counter.ledger.edges (.shared item) (.shared owner) =
      before.counter.ledger.edges (.shared item) (.shared owner)
  idle : after.counter.ledger.hasPending = false

end World

theorem Settlement.events_of_error {settlement : Settlement} {cause : LedgerError}
    (failed : settlement.result = .error cause) :
    settlement.events = settlement.removed.map fun (ref, children) => .collected ref children := by
  rw [events, announced, failed]
  exact List.append_nil _

theorem Ledger.Valid.hasPending_of_isPending {ledger : Ledger} (valid : ledger.Valid)
    (busy : ledger.hasPending = true) : ∃ ref ∈ ledger.tracked, ledger.isPending (.shared ref) = true := by
  obtain ⟨id, account, known, pending⟩ := valid.hasPending_iff.mp busy
  obtain ⟨rfl, tracked⟩ := valid.tracked_of_account known
  refine ⟨account.item, tracked, ?_⟩
  rw [valid.isPending_eq_book, known]
  exact pending

namespace World

variable {before after : World} {removed : List (Ref × Nat)} {error : CallError}

theorem Sheds.untouched_iff (sheds : before.Sheds removed after) (valid : before.counter.ledger.Valid) :
    before.Untouched after ↔ before.counter.ledger.hasPending = false ∧ removed = [] := by
  constructor
  · intro untouched
    constructor
    · refine Bool.eq_false_iff.mpr fun busy => ?_
      obtain ⟨ref, tracked, pending⟩ := valid.hasPending_of_isPending busy
      have same := untouched.pending ref tracked
      rw [Ledger.isPending_of_idle sheds.idle, pending] at same
      cases same
    · refine List.eq_nil_iff_forall_not_mem.mpr fun pair member => ?_
      have listed : pair.1 ∈ removed.map Prod.fst := List.mem_map_of_mem member
      have kept := (untouched.tracked pair.1).mpr (sheds.included pair.1 listed)
      exact ((sheds.tracked pair.1).mp kept).2 listed
  · rintro ⟨idle, rfl⟩
    have tracked : ∀ ref, ref ∈ after.counter.ledger.tracked ↔ ref ∈ before.counter.ledger.tracked := by
      intro ref
      rw [sheds.tracked]
      exact and_iff_left List.not_mem_nil
    refine ⟨?_, sheds.heap, sheds.total, tracked, fun ref member => ?_, fun item member owner owns => ?_,
      fun ref _ => ?_⟩
    · rw [sheds.events, List.map_nil, ite_self, List.append_nil]
    · exact sheds.held ref ((tracked ref).mpr member)
    · exact sheds.edges item ((tracked item).mpr member) owner ((tracked owner).mpr owns)
    · rw [Ledger.isPending_of_idle sheds.idle, Ledger.isPending_of_idle idle]

theorem sheds_settle {cause : LedgerError} (orderly : before.counter.Orderly)
    (failed : (before.counter.settle before.heap).result = .error cause) :
    before.Sheds (before.counter.settle before.heap).removed before.settle.1 := by
  have valid : before.counter.cleared.ledger.Valid := orderly.valid.unmark fun _ member => nomatch member
  have pass : before.counter.cleared.Sheds before.heap _ :=
    Counter.pass_sheds orderly.valid orderly.nodup (Counter.passes_of_error failed)
  constructor
  · rw [← Settlement.events_of_error failed]
    rfl
  · exact pass.released
  · exact pass.ledger.included
  · exact pass.ledger.tracked_iff
  · exact pass.ledger.total
  · exact fun ref => pass.ledger.held_eq valid
  · exact fun item tracked owner => pass.ledger.edges_eq valid tracked
  · have idle : before.settle.1.counter.ledger.pending = ∅ :=
      Counter.pending_settle orderly.valid orderly.nodup
    rw [Ledger.hasPending, idle]
    rfl

theorem settle_error (failed : before.perform .settle = (after, .error error)) :
    before.settle.1 = after ∧ ∃ cause, error = .failed (.refused cause) ∧
      (before.counter.settle before.heap).result = .error cause := by
  have settled : before.settle = (after, .error error) := failed
  refine ⟨congrArg Prod.fst settled, ?_⟩
  have answered := congrArg Prod.snd settled
  unfold World.settle at answered
  cases result : (before.counter.settle before.heap).result with
  | ok count => simp [result] at answered
  | error cause =>
    simp only [result, Except.error.injEq] at answered
    exact ⟨cause, answered.symm, rfl⟩

/-- Whatever has been done before, a settle that fails has reported and released what it has removed by
then, and leaves nothing pending and the rest as it was. Marking removes all or nothing. So nothing has
changed only where nothing was pending and nothing has been removed, which needs an eager counter. -/
theorem failed_settle (settings : Settings) (listener : Listener) (calls : List Call)
    (failed : ((settings.world listener).after calls).perform .settle = (after, .error error)) :
    ∃ removed, ((settings.world listener).after calls).Sheds removed after ∧
      (settings.strategy = .markSweep → removed = []) ∧
      (((settings.world listener).after calls).Untouched after ↔
        ((settings.world listener).after calls).counter.ledger.hasPending = false ∧ removed = []) ∧
      (settings.eager = false → ¬((settings.world listener).after calls).Untouched after) := by
  have orderly := orderly_after settings listener calls
  obtain ⟨strategy, eager⟩ := fixed_after settings listener calls
  generalize (settings.world listener).after calls = before at *
  obtain ⟨rfl, cause, rfl, result⟩ := settle_error failed
  have sheds := sheds_settle orderly result
  have untouched := sheds.untouched_iff orderly.valid
  refine ⟨_, sheds, fun marking => ?_, untouched, fun lazy same => ?_⟩
  · exact Counter.removed_of_marking (strategy.trans marking) result
  · have passes := Counter.passes_of_error result
    rw [(untouched.mp same).1, eager, lazy] at passes
    cases passes

/-- Two arrays that hold a scalar each, of which one has been let go without having been held. -/
def overdrawnCalls : List Call :=
  let scalar : Value := .scalar (.integer 7)
  let first : Value := .shared (.container 0)
  let second : Value := .shared (.container 1)
  [.newContainer (.list .array), .newContainer (.list .array), .register first, .register second,
    .push 0 scalar, .addEdge scalar first, .push 1 scalar, .addEdge scalar second, .removeHold scalar]

theorem failed_settle_overdrawn : ∃ removed,
    ((({ strategy := .incremental } : Settings).world .recorder).after overdrawnCalls).Sheds removed
      (((({ strategy := .incremental } : Settings).world .recorder).after overdrawnCalls).perform
        .settle).1 ∧
    ¬((({ strategy := .incremental } : Settings).world .recorder).after overdrawnCalls).Untouched
      (((({ strategy := .incremental } : Settings).world .recorder).after overdrawnCalls).perform
        .settle).1 := by
  have fails : (((({ strategy := .incremental } : Settings).world .recorder).after
      overdrawnCalls).perform .settle).2 = .error (.failed (.refused .totalUnderflow)) := by
    decide +kernel
  obtain ⟨removed, sheds, _, _, touched⟩ := failed_settle { strategy := .incremental } .recorder
    overdrawnCalls (Prod.ext rfl fails)
  exact ⟨removed, sheds, touched rfl⟩

-- A paired run is enough. Marking forgets what was pending, and the walk over components has collected
-- an array before the total is too small for the other.
theorem failed_settle_touches :
    (({} : Settings).world .recorder).Paired [] (overdrawnCalls ++ [.settle]) ∧
    ((((({} : Settings).world .recorder).after overdrawnCalls).perform .settle).2 =
        .error (.failed (.refused .totalUnderflow)) ∧
      ¬((({} : Settings).world .recorder).after overdrawnCalls).Untouched
        (((({} : Settings).world .recorder).after overdrawnCalls).perform .settle).1) ∧
    (((({ strategy := .incremental } : Settings).world .recorder).after overdrawnCalls).perform
        .settle).2 = .error (.failed (.refused .totalUnderflow)) ∧
      ¬((({ strategy := .incremental } : Settings).world .recorder).after overdrawnCalls).Untouched
        (((({ strategy := .incremental } : Settings).world .recorder).after overdrawnCalls).perform
          .settle).1 := by
  refine ⟨by decide +kernel, ⟨by decide +kernel, fun same => ?_⟩, by decide +kernel, fun same => ?_⟩
  · exact absurd (same.pending (.container 0) (by decide +kernel)) (by decide +kernel)
  · exact absurd same.events (by decide +kernel)

end World

end Reclaim
