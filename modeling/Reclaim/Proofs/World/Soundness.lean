import Reclaim.Proofs.Collect.Agreement
import Reclaim.Proofs.World.Pairing

/-! A paired run keeps counter and heap in agreement. -/

set_option autoImplicit false

namespace Reclaim

/-- A book after a call. Settles are left out, because they depend on the heap. -/
def Book.hear (book : Book) : Call → Except Failure Book
  | .register item => .ok (book.register item)
  | .addHolds item count => (book.addHolds item count).mapError .aborted
  | .removeHold item => (book.removeHold item).mapError .refused
  | .addEdge item owner => book.addEdge item owner
  | .removeEdge item owner => (book.removeEdge item owner).mapError .refused
  | _ => .ok book

namespace World

variable {world after : World} {owed : List Due} {call : Call} {reply : Answer}

def Sound (world : World) (owed : List Due) : Prop :=
  world.counter.Sound world.heap world.created owed

theorem sound_world (settings : Settings) (listener : Listener) :
    (settings.world listener).Sound [] :=
  ⟨Ledger.sound_empty, fun _ present => (nomatch present), fun _ => rfl⟩

namespace Sound

theorem of_count {paid : List Due} {result : Except Failure Counter}
    (sound : ∀ counter, result = .ok counter → counter.Sound world.heap world.created paid)
    (counted : world.count result = (after, .ok reply)) : after.Sound paid := by
  cases result with
  | error failure => cases counted
  | ok counter =>
    cases counted
    exact sound counter rfl

theorem trade {id : Ident} {container : Container} {losses : List Value} (gains : List Value)
    (sound : world.Sound owed) (held : world.heap.holds (.shared (.container id)))
    (gained : ∀ value ∈ gains, world.heap.holds value)
    (trades : (world.heap.container id).Trades container gains losses) :
    Sound { world with heap := world.heap.setContainer id container }
      (gains.map (.gain · (.shared (.container id))) ++
        losses.map (.loss · (.shared (.container id))) ++ owed) :=
  ⟨sound.ledger.trade held gained trades, sound.cached, sound.uncached⟩

theorem exchange {id : Ident} {result : Option (Value × Container)} (gains : List Value)
    (sound : world.Sound owed) (held : world.heap.holds (.shared (.container id)))
    (gained : ∀ value ∈ gains, world.heap.holds value)
    (trades : ∀ old container, result = some (old, container) →
      (world.heap.container id).Trades container gains [old])
    (exchanged : world.exchange id result = (after, .ok reply)) :
    (result = none ∧ reply = .value none ∧ after.Sound owed) ∨
    ∃ old container, result = some (old, container) ∧ reply = .value (some old) ∧
      after.Sound (gains.map (.gain · (.shared (.container id))) ++
        [.loss old (.shared (.container id))] ++ owed) := by
  match result with
  | none =>
    cases exchanged
    exact .inl ⟨rfl, rfl, sound⟩
  | some (old, container) =>
    cases exchanged
    exact .inr ⟨old, container, rfl, rfl, sound.trade gains held gained (trades old container rfl)⟩

theorem make {ref : Ident → Ref} {heap : Heap} (sound : world.Sound owed)
    (fresh : (ref world.created).id = world.created)
    (holds : ∀ value, heap.holds value =
      (decide (value = .shared (ref world.created)) || world.heap.holds value))
    (children : ∀ owner, heap.children owner =
      if owner = ref world.created then [] else world.heap.children owner) :
    (world.make ref heap).1.Sound owed :=
  ⟨sound.ledger.make fresh holds children, sound.cached, sound.uncached⟩

theorem makeBuffer {heap : Heap} {buffer : Buffer} (sound : world.Sound owed)
    (same : heap.Same world.heap) :
    (world.make .buffer (heap.setBuffer world.created buffer)).1.Sound owed := by
  refine sound.make rfl (fun value => ?_) fun owner => ?_
  · rw [Heap.holds_setBuffer, same.holds_eq]
  · rw [Heap.children_setBuffer]
    cases owner with
    | container id => simp [Heap.children, same.container_eq id]
    | buffer id => exact (ite_self _).symm

theorem answer (sound : world.Sound owed) (allowed : call.Allowed owed)
    (held : ∀ value ∈ call.values, world.heap.holds value)
    (answered : world.answer call = (after, .ok reply)) :
    after.Sound (call.owedAfter owed reply) := by
  cases call with
  | newContainer kind =>
    cases answered
    refine sound.make rfl (Heap.holds_setContainer) fun owner => ?_
    rw [Heap.newContainer, Heap.children_setContainer, Container.children_empty]
  | newBuffer size =>
    simp only [World.answer, Heap.newBuffer] at answered
    split at answered
    next heap made =>
      split at made <;> cases made
      cases answered
      exact sound.makeBuffer ⟨rfl, rfl⟩
    next => cases answered
  | rentBuffer size =>
    simp only [World.answer, Heap.rentBuffer] at answered
    split at answered
    next heap made =>
      split at made <;> cases made
      cases answered
      exact sound.makeBuffer ⟨rfl, rfl⟩
    next => cases answered
  | register item =>
    cases answered
    exact Counter.Sound.register sound (held item (List.mem_singleton_self item))
  | addHolds item count =>
    have present := held item (List.mem_singleton_self item)
    exact of_count (fun counter added => Counter.Sound.addHolds sound present added) answered
  | removeHold item =>
    exact of_count (fun counter removed => Counter.Sound.removeHold sound removed) answered
  | addEdge item owner =>
    exact of_count (fun counter added => Counter.Sound.addEdge sound allowed added) answered
  | removeEdge item owner =>
    exact of_count (fun counter removed => Counter.Sound.removeEdge sound allowed removed) answered
  | settle =>
    -- A settle is allowed only where nothing is owed.
    obtain rfl : owed = [] := allowed
    simp only [World.answer, World.settle] at answered
    cases settled : (world.counter.settle world.heap).result with
    | error error => simp [settled] at answered
    | ok count =>
      simp only [settled, Prod.mk.injEq, Except.ok.injEq] at answered
      obtain ⟨rfl, rfl⟩ := answered
      exact Counter.Sound.settle sound settled
  | check =>
    simp only [World.answer] at answered
    split at answered <;> cases answered
    exact sound
  | listen listener =>
    cases answered
    exact sound
  -- What a container gains and loses is owed from here on.
  | push id item =>
    obtain ⟨owner, gained⟩ := List.forall_mem_cons.mp held
    simp only [World.answer] at answered
    split at answered
    next container pushed =>
      cases answered
      exact sound.trade [item] owner gained (Container.trades_push? pushed)
    next =>
      cases answered
      exact sound
  | get id index =>
    cases answered
    exact sound
  | set id index item =>
    obtain ⟨owner, gained⟩ := List.forall_mem_cons.mp held
    obtain ⟨_, rfl, same⟩ | ⟨old, container, _, rfl, traded⟩ :=
      sound.exchange [item] owner gained (fun _ _ => Container.trades_set?) answered
    · exact same
    · exact traded
  | remove id index =>
    obtain ⟨owner, gained⟩ := List.forall_mem_cons.mp held
    obtain ⟨_, rfl, same⟩ | ⟨old, container, _, rfl, traded⟩ :=
      sound.exchange [] owner gained (fun _ _ => Container.trades_remove?) answered
    · exact same
    · exact traded
  | lookup id key =>
    cases answered
    exact sound
  | insert id key item =>
    obtain ⟨owner, gained⟩ := List.forall_mem_cons.mp held
    simp only [World.answer] at answered
    split at answered
    next old container inserted =>
      cases answered
      exact sound.trade [item] owner gained (Container.trades_insert? inserted)
    next =>
      cases answered
      exact sound
  | removeKey id key =>
    obtain ⟨owner, gained⟩ := List.forall_mem_cons.mp held
    obtain ⟨_, rfl, same⟩ | ⟨old, container, _, rfl, traded⟩ :=
      sound.exchange [] owner gained (fun _ _ => Container.trades_removeKey?) answered
    · exact same
    · exact traded
  | clear id =>
    obtain ⟨owner, gained⟩ := List.forall_mem_cons.mp held
    cases answered
    exact sound.trade [] owner gained Container.trades_clear
  | modify id change =>
    cases answered
    have present := held _ (List.mem_singleton_self _)
    -- The bytes of a buffer are no children, and the same values exist.
    refine ⟨sound.ledger.congr (fun value => ?_) fun owner => Heap.children_setBuffer, sound.cached,
      sound.uncached⟩
    rw [Heap.holds_setBuffer]
    by_cases here : value = .shared (.buffer id) <;> simp [here, present]

theorem perform (sound : world.Sound owed) (allowed : call.Allowed owed)
    (performed : world.perform call = (after, .ok reply)) :
    after.Sound (call.owedAfter owed reply) := by
  unfold World.perform at performed
  split at performed
  next held => exact sound.answer allowed (List.all_eq_true.mp held) performed
  next => cases performed

end Sound

theorem map_count {result : Except Failure Counter} (counted : world.count result = (after, .ok reply)) :
    result.map (·.ledger.book) = .ok after.counter.ledger.book := by
  cases result with
  | error failure => cases counted
  | ok counter => cases counted; rfl

/-- But for settles, the book of a world follows the calls by itself. -/
theorem Sound.book_perform (sound : world.Sound owed) (busy : call ≠ .settle)
    (performed : world.perform call = (after, .ok reply)) :
    world.counter.ledger.book.hear call = .ok after.counter.ledger.book := by
  cases counted : call.counted with
  | false =>
    have same : (world.perform call).1.counter = world.counter := counter_of_silent counted
    rw [performed] at same
    rw [same]
    cases call <;> first | rfl | cases counted
  | true =>
    unfold World.perform at performed
    split at performed
    next =>
      cases call with
      | register item =>
        cases performed
        exact congrArg Except.ok (Counter.Sound.book_register sound).symm
      | addHolds item count => exact (Counter.Sound.book_addHolds sound).symm.trans (map_count performed)
      | removeHold item => exact (Counter.Sound.book_removeHold sound).symm.trans (map_count performed)
      | addEdge item owner => exact (Counter.Sound.book_addEdge sound).symm.trans (map_count performed)
      | removeEdge item owner =>
        exact (Counter.Sound.book_removeEdge sound).symm.trans (map_count performed)
      | settle => exact absurd rfl busy
      | _ => cases counted
    next => cases performed

theorem settle_answer {count : Nat} (result : (world.counter.settle world.heap).result = .ok count) :
    (world.perform .settle).2 = .ok (.number count) := by
  show world.settle.2 = _
  rw [World.settle, result]

theorem settle_ok (performed : world.perform .settle = (after, .ok reply)) :
    ∃ count, (world.counter.settle world.heap).result = .ok count ∧ reply = .number count ∧
      after.counter = (world.counter.settle world.heap).counter ∧
      after.heap = (world.counter.settle world.heap).heap := by
  have settled : world.settle = (after, .ok reply) := performed
  unfold World.settle at settled
  cases result : (world.counter.settle world.heap).result with
  | error error => simp [result] at settled
  | ok count =>
    simp only [result, Prod.mk.injEq, Except.ok.injEq] at settled
    obtain ⟨rfl, rfl⟩ := settled
    exact ⟨count, rfl, rfl, rfl, rfl⟩

/-- Before and after every call of a paired run the counter agrees with the heap. -/
theorem Paired.sound {settings : Settings} {listener : Listener} {calls : List Call}
    (paired : (settings.world listener).Paired [] calls) (turn : Turn)
    (made : turn ∈ (settings.world listener).play [] calls) :
    (∃ before, turn.before.Sound before ∧ turn.call.Allowed before) ∧
      turn.before.perform turn.call = (turn.after, turn.result) ∧
      (∀ reply, turn.result = .ok reply → turn.after.Sound turn.owed) :=
  Paired.invariant Sound (fun _ => True)
    (fun _ _ _ _ _ sound allowed _ performed => sound.perform allowed performed)
    paired (sound_world settings listener) (fun _ _ => trivial) turn made

end World

end Reclaim
