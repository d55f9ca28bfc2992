import Reclaim.Proofs.World.Agreement
import Reclaim.Proofs.World.Precision
import Reclaim.Proofs.World.Unpaired

/-! Stretches of paired runs that pay for all they owe. Where a settle would be allowed after the last
call, every invariant of paired runs holds again with nothing owed. -/

set_option autoImplicit false

namespace Reclaim

def Due.call : Due → Call
  | .gain item owner => .addEdge item owner
  | .loss item owner => .removeEdge item owner

def Call.paid (call : Call) (answer : Answer) : List Call := call :: (call.dues answer).map Due.call

namespace Call

/-- The values that become tracked by a call, if they are not tracked yet. -/
def opens : Call → List Value
  | .register item | .addHolds item _ => [item]
  | .addEdge item owner => [item, owner]
  | _ => []

variable {call : Call} {answer : Answer}

theorem allowed_of_silent {owed : List Due} (silent : call.counted = false) : call.Allowed owed := by
  cases call <;> trivial

theorem owedAfter_of_silent (silent : call.counted = false) :
    call.owedAfter [] answer = call.dues answer := by
  cases call <;> first | exact List.append_nil _ | cases silent

theorem opens_of_silent (silent : call.counted = false) : call.opens = [] := by
  cases call <;> first | rfl | cases silent

theorem mem_values_of_mem_dues {item owner : Value} (due : .gain item owner ∈ call.dues answer) :
    item ∈ call.values ∧ owner ∈ call.values := by
  unfold dues at due
  split at due
  all_goals
    simp only [List.mem_cons, List.mem_map, Option.mem_toList, List.not_mem_nil, Due.gain.injEq,
      reduceCtorEq, or_false, and_false, exists_false] at due
  all_goals
    obtain ⟨rfl, rfl⟩ := due
    simp [values]

theorem opens_paid {value : Value} {paid : Call} (member : paid ∈ call.paid answer)
    (silent : call.counted = false) (opened : value ∈ paid.opens) : value ∈ call.values := by
  rcases List.mem_cons.mp member with rfl | member
  · rw [opens_of_silent silent] at opened
    cases opened
  · obtain ⟨due, owed, rfl⟩ := List.mem_map.mp member
    cases due with
    | gain item owner =>
      obtain ⟨named, ownerNamed⟩ := mem_values_of_mem_dues owed
      simp only [Due.call, opens, List.mem_cons, List.not_mem_nil, or_false] at opened
      rcases opened with rfl | rfl
      · exact named
      · exact ownerNamed
    | loss item owner => cases opened

theorem mem_paid {paid : Call} (member : paid ∈ call.paid answer) :
    paid = call ∨ ∃ due : Due, paid = due.call := by
  rcases List.mem_cons.mp member with same | member
  · exact .inl same
  · obtain ⟨due, _, rfl⟩ := List.mem_map.mp member
    exact .inr ⟨due, rfl⟩

theorem settle_not_mem_paid (silent : call.counted = false) : .settle ∉ call.paid answer := by
  intro member
  obtain rfl | ⟨due, same⟩ := mem_paid member
  · cases silent
  · cases due <;> cases same

theorem addHolds_not_mem_paid {item : Value} {count : Nat} (silent : call.counted = false) :
    .addHolds item count ∉ call.paid answer := by
  intro member
  obtain rfl | ⟨due, same⟩ := mem_paid member
  · cases silent
  · cases due <;> cases same

end Call

namespace World

def performAll (world : World) : List Call → Except CallError World
  | [] => .ok world
  | call :: rest =>
    match world.perform call with
    | (after, .ok _) => after.performAll rest
    | (_, .error error) => .error error

variable {world after first second : World} {owed : List Due} {call : Call} {calls rest : List Call}
  {answer : Answer}

theorem performAll_cons (performed : world.perform call = (after, .ok answer)) :
    world.performAll (call :: rest) = after.performAll rest := by
  rw [performAll, performed]

theorem paired_pay (world : World) (owed : List Due) :
    world.Paired owed (owed.map Due.call ++ [.settle]) := by
  induction owed generalizing world with
  | nil => exact ⟨rfl, fun _ _ _ => trivial⟩
  | cons due rest ih =>
    have paid : ∀ answer, due.call.owedAfter (due :: rest) answer = rest := fun answer => by
      cases due <;> simp only [Due.call, Call.owedAfter, List.erase_cons_head]
    have allowed : due.call.Allowed (due :: rest) := by
      cases due <;> exact List.mem_cons_self
    exact ⟨allowed, fun after answer _ => (paid answer).symm ▸ ih after⟩

/-- A call that the counter does not hear of is paired with the payments for it. -/
theorem paired_paid (performed : world.perform call = (after, .ok answer))
    (silent : call.counted = false) : world.Paired [] (call.paid answer ++ [.settle]) := by
  refine ⟨Call.allowed_of_silent silent, ?_⟩
  rintro _ _ same
  cases performed.symm.trans same
  rw [Call.owedAfter_of_silent silent]
  exact paired_pay after (call.dues answer)

theorem Paired.performAll (Keeps : World → List Due → Prop) (Good : Call → Prop)
    (step : ∀ world owed call after answer, Keeps world owed → call.Allowed owed → Good call →
      world.perform call = (after, .ok answer) → Keeps after (call.owedAfter owed answer))
    (paired : world.Paired owed (calls ++ [.settle])) (start : Keeps world owed)
    (good : ∀ call ∈ calls, Good call) (performed : world.performAll calls = .ok after) :
    Keeps after [] := by
  induction calls generalizing world owed with
  | nil =>
    obtain ⟨settled, _⟩ := paired
    obtain rfl : owed = [] := settled
    cases performed
    exact start
  | cons call rest ih =>
    obtain ⟨allowed, later⟩ := paired
    obtain ⟨fine, good⟩ := List.forall_mem_cons.mp good
    unfold World.performAll at performed
    split at performed
    next next answer same =>
      exact ih (later next answer same) (step _ _ _ _ _ start allowed fine same) good performed
    next => cases performed

theorem eager_performAll (performed : world.performAll calls = .ok after) :
    after.counter.eager = world.counter.eager := by
  induction calls generalizing world with
  | nil =>
    cases performed
    rfl
  | cons call rest ih =>
    unfold World.performAll at performed
    split at performed
    next next answer same =>
      have kept := eager_perform world call
      rw [same] at kept
      exact (ih performed).trans kept
    next => cases performed

/-- Worlds that agree fail alike on a stretch without settles, or agree after it. -/
theorem Agrees.performAll (agrees : first.Agrees second) (sound : first.Sound owed)
    (sound' : second.Sound owed) (paired : first.Paired owed (calls ++ [.settle]))
    (quiet : ∀ call ∈ calls, call ≠ .settle) :
    Alike Agrees (first.performAll calls) (second.performAll calls) := by
  induction calls generalizing first second owed with
  | nil => exact agrees
  | cons call rest ih =>
    obtain ⟨allowed, later⟩ := paired
    obtain ⟨silent, quiet⟩ := List.forall_mem_cons.mp quiet
    have responds := agrees.perform sound sound' allowed fun same => absurd same silent
    unfold World.performAll
    obtain ⟨⟨after, result⟩, performed⟩ : ∃ out, first.perform call = out := ⟨_, rfl⟩
    obtain ⟨⟨after', result'⟩, performed'⟩ : ∃ out, second.perform call = out := ⟨_, rfl⟩
    rw [performed, performed'] at responds
    rw [performed, performed']
    obtain rfl : result = result' := responds.result
    cases result with
    | error error => exact rfl
    | ok answer =>
      exact ih (responds.worlds answer rfl) (sound.perform allowed performed)
        (sound'.perform allowed performed') (later after answer performed) quiet

theorem holds_perform {value : Value} (busy : call ≠ .settle) (held : world.heap.holds value) :
    (world.perform call).1.heap.holds value := by
  obtain ⟨_, change⟩ := change_perform world busy
  exact change.holds held

theorem holds_performAll {value : Value} (busy : ∀ call ∈ calls, call ≠ .settle)
    (held : world.heap.holds value) (performed : world.performAll calls = .ok after) :
    after.heap.holds value := by
  induction calls generalizing world with
  | nil =>
    cases performed
    exact held
  | cons call rest ih =>
    obtain ⟨first, later⟩ := List.forall_mem_cons.mp busy
    unfold performAll at performed
    split at performed
    next next answer same =>
      have kept := holds_perform first held
      rw [same] at kept
      exact ih later kept performed
    next => cases performed

theorem names_perform {known : Ref → Prop} (sound : world.Sound owed)
    (names : world.counter.ledger.book.Names known) (busy : call ≠ .settle)
    (opens : ∀ ref, .shared ref ∈ call.opens → known ref)
    (performed : world.perform call = (after, .ok answer)) :
    after.counter.ledger.book.Names known := by
  have heard := sound.book_perform busy performed
  cases call with
  | register item =>
    exact Except.ok.inj heard ▸ names.register fun ref same => opens ref (by simp [Call.opens, same])
  | addHolds item count =>
    exact names.addHolds (ok_of_mapError heard) fun ref same => opens ref (by simp [Call.opens, same])
  | removeHold item => exact names.removeHold (ok_of_mapError heard)
  | addEdge item owner =>
    refine names.addEdge heard fun ref same => opens ref ?_
    rcases same with same | same <;> simp [Call.opens, same]
  | removeEdge item owner => exact names.removeEdge (ok_of_mapError heard)
  | _ => exact Except.ok.inj heard ▸ names

end World

end Reclaim
