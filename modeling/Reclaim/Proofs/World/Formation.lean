import Reclaim.Proofs.Ledger.Balance
import Reclaim.Proofs.World.Presence

/-! The shape of a world, in runs of any calls: identities tell its values apart, all children exist, and
the ledger is an arena for values that exist, whatever edges it records. -/

set_option autoImplicit false

namespace Reclaim

namespace Heap.Formed

variable {heap other : Heap} {created : Nat}

theorem newContainer (formed : heap.Formed created) (kind : Kind) :
    (heap.newContainer created kind).Formed (created + 1) := by
  have fresh : (Ref.container created).id = created := rfl
  refine formed.make fresh holds_setContainer fun owner child member => ?_
  rw [Heap.newContainer, children_setContainer, Container.children_empty] at member
  split at member
  · cases member
  · exact member

theorem newBuffer {buffer : Buffer} (formed : heap.Formed created) (same : other.Same heap) :
    (other.setBuffer created buffer).Formed (created + 1) := by
  have fresh : (Ref.buffer created).id = created := rfl
  refine formed.make fresh (fun value => ?_) fun owner child member => ?_
  · rw [holds_setBuffer, same.holds_eq]
  · rw [children_setBuffer] at member
    cases owner with
    | container id => rwa [children, ← same.container_eq id]
    | buffer id => exact absurd member List.not_mem_nil

end Heap.Formed

namespace World

variable {world : World} {call : Call}

section

variable (formed : world.heap.Formed world.created)
include formed

theorem formed_exchange {id : Ident} {result : Option (Value × Container)} {gains : List Value}
    (present : world.heap.holds (.shared (.container id))) (gained : ∀ value ∈ gains, world.heap.holds value)
    (trades : ∀ old container, result = some (old, container) →
      (world.heap.container id).Trades container gains [old]) :
    (world.exchange id result).1.heap.Formed (world.exchange id result).1.created := by
  match result with
  | none => exact formed
  | some (old, container) => exact formed.trade present gained (trades old container rfl)

theorem formed_answer (busy : call ≠ .settle) (held : ∀ value ∈ call.values, world.heap.holds value) :
    (world.answer call).1.heap.Formed (world.answer call).1.created := by
  cases call with
  | settle => exact absurd rfl busy
  | register _ | check | listen _ | get _ _ | lookup _ _ => exact formed
  | addHolds _ _ | removeHold _ | addEdge _ _ | removeEdge _ _ =>
    simp only [World.answer, count]
    split <;> exact formed
  | newContainer kind => exact formed.newContainer kind
  | newBuffer size =>
    simp only [World.answer, Heap.newBuffer]
    by_cases fits : size ≤ maxCapacity
    · simp only [if_pos fits]
      exact formed.newBuffer ⟨rfl, rfl⟩
    · simp only [if_neg fits]
      exact formed
  | rentBuffer size =>
    simp only [World.answer, Heap.rentBuffer]
    by_cases fits : size ≤ maxCapacity
    · simp only [if_pos fits]
      exact formed.newBuffer ⟨rfl, rfl⟩
    · simp only [if_neg fits]
      exact formed
  | push id item =>
    obtain ⟨present, gained⟩ := List.forall_mem_cons.mp held
    simp only [World.answer]
    split
    next container pushed => exact formed.trade present gained (Container.trades_push? pushed)
    next => exact formed
  | insert id key item =>
    obtain ⟨present, gained⟩ := List.forall_mem_cons.mp held
    simp only [World.answer]
    split
    next old container inserted => exact formed.trade present gained (Container.trades_insert? inserted)
    next => exact formed
  | set id index item =>
    obtain ⟨present, gained⟩ := List.forall_mem_cons.mp held
    exact formed_exchange formed present gained fun _ _ => Container.trades_set?
  | remove id index =>
    obtain ⟨present, gained⟩ := List.forall_mem_cons.mp held
    exact formed_exchange formed present gained fun _ _ => Container.trades_remove?
  | removeKey id key =>
    obtain ⟨present, gained⟩ := List.forall_mem_cons.mp held
    exact formed_exchange formed present gained fun _ _ => Container.trades_removeKey?
  | clear id =>
    obtain ⟨present, gained⟩ := List.forall_mem_cons.mp held
    exact formed.trade present gained Container.trades_clear
  | modify id change =>
    exact formed.setBuffer (held _ (List.mem_singleton_self _))

end

theorem formed_settle (formed : world.heap.Formed world.created) (populated : world.Populated)
    (orderly : world.counter.Orderly) : world.settle.1.heap.Formed world.created := by
  rw [heap_settle orderly]
  exact formed.releaseAll fun _ => populated.of_removed orderly

theorem formed_perform (formed : world.heap.Formed world.created) (populated : world.Populated)
    (orderly : world.counter.Orderly) (call : Call) :
    (world.perform call).1.heap.Formed (world.perform call).1.created := by
  by_cases settles : call = .settle
  · subst settles
    exact formed_settle formed populated orderly
  unfold perform
  split
  next exist => exact formed_answer formed settles (List.all_eq_true.mp exist)
  next => exact formed

/-- After any calls the ledger is an arena for values that exist. -/
theorem housed_after (settings : Settings) (listener : Listener) (calls : List Call) :
    ((settings.world listener).after calls).counter.ledger.Housed
      ((settings.world listener).after calls).heap ((settings.world listener).after calls).created := by
  suffices kept : ∀ world : World, world.counter.Orderly → world.Populated →
      world.heap.Formed world.created → (world.after calls).counter.ledger.Housed
        (world.after calls).heap (world.after calls).created from
    kept _ (orderly_after settings listener []) (populated_world settings listener) Ledger.sound_empty.formed
  induction calls with
  | nil =>
    intro world orderly populated formed
    refine ⟨formed, orderly.valid, fun ref tracked => ?_⟩
    obtain ⟨slot, entry, found, rfl⟩ := Ledger.mem_tracked.mp tracked
    exact populated.present slot entry found
  | cons call rest ih =>
    intro world orderly populated formed
    exact ih _ (orderly_perform orderly call) (populated.perform orderly call)
      (formed_perform formed populated orderly call)

end World

end Reclaim
