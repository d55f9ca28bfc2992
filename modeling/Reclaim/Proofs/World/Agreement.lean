import Reclaim.Proofs.Collect.Agreement
import Reclaim.Proofs.World.Soundness

/-! The strategy of a counter cannot be told from its answers. Worlds in which counters with equal
books work on heaps with the same contents stay such worlds, call by call, up to the first call that
fails, and that call fails alike in both. -/

set_option autoImplicit false

namespace Reclaim

/-- A rented block has no bytes left of what it held before. -/
theorem Pool.rent_fst (pool : Pool) (size : Nat) : (pool.rent size).1 = ⟨size, fun _ => 0⟩ := by
  simp [rent, Block.clear, Block.resize]

namespace World

variable {first second : World} {owed : List Due} {call : Call} {calls : List Call}

/-- The worlds differ in the strategies, in the places of values, in the pool and in what has been
written down. -/
structure Agrees (first second : World) : Prop where
  book : first.counter.SameBook second.counter
  heap : first.heap.Same second.heap
  created : first.created = second.created
  budget : first.budget = second.budget

structure Responds (first second : World × Except CallError Answer) : Prop where
  result : first.2 = second.2
  worlds : ∀ answer, first.2 = .ok answer → first.1.Agrees second.1

namespace Agrees

theorem count {result result' : Except Failure Counter} (agrees : first.Agrees second)
    (alike : Alike Counter.SameBook result result') :
    Responds (first.count result) (second.count result') := by
  obtain ⟨failure, rfl, rfl⟩ | ⟨next, next', rfl, rfl, book⟩ := alike.cases
  · exact ⟨rfl, fun _ failed => nomatch failed⟩
  · exact ⟨rfl, fun _ _ => { agrees with book }⟩

theorem exchange {id : Ident} (agrees : first.Agrees second) (result : Option (Value × Container)) :
    Responds (first.exchange id result) (second.exchange id result) := by
  cases result with
  | none => exact ⟨rfl, fun _ _ => agrees⟩
  | some pair => exact ⟨rfl, fun _ _ => { agrees with heap := agrees.heap.setContainer }⟩

theorem make {ref : Ident → Ref} {heap heap' : Heap} (agrees : first.Agrees second)
    (same : heap.Same heap') : Responds (first.make ref heap) (second.make ref heap') where
  result := by rw [World.make, World.make, agrees.created]
  worlds _ _ := { agrees with heap := same, created := congrArg (· + 1) agrees.created }

theorem settle (agrees : first.Agrees second) (sound : first.Sound []) (sound' : second.Sound [])
    (eager : first.counter.eager = second.counter.eager) : Responds first.settle second.settle := by
  have settled := Counter.settle_agrees sound sound' agrees.book agrees.heap eager
  refine ⟨?_, fun answer answered => ?_⟩
  · simp only [World.settle, settled.result]
  · obtain ⟨count, result, _⟩ := settle_ok (show first.settle = (_, .ok answer) from Prod.ext rfl answered)
    exact { agrees with book := settled.book count result, heap := settled.heap count result }

theorem answer (agrees : first.Agrees second) (sound : first.Sound owed) (sound' : second.Sound owed)
    (allowed : call.Allowed owed)
    (eager : call = .settle → first.counter.eager = second.counter.eager) :
    Responds (first.answer call) (second.answer call) := by
  cases call with
  | newContainer kind =>
    refine agrees.make ?_
    rw [agrees.created]
    exact agrees.heap.setContainer
  | newBuffer size =>
    by_cases fits : size ≤ maxCapacity
    · simp only [World.answer, Heap.newBuffer, agrees.created, if_pos fits]
      exact agrees.make agrees.heap.setBuffer
    · simp only [World.answer, Heap.newBuffer, if_neg fits]
      exact ⟨rfl, fun _ _ => agrees⟩
  | rentBuffer size =>
    by_cases fits : size ≤ maxCapacity
    -- The pools may differ, but not in what a rented block reads as.
    · simp only [World.answer, Heap.rentBuffer, agrees.created, Pool.rent_fst, if_pos fits]
      exact agrees.make (Heap.Same.setBuffer ⟨agrees.heap.containers, agrees.heap.buffers⟩)
    · simp only [World.answer, Heap.rentBuffer, if_neg fits]
      exact ⟨rfl, fun _ _ => agrees⟩
  | register item =>
    exact ⟨rfl, fun _ _ =>
      { agrees with book := Counter.sameBook_register sound sound' agrees.book }⟩
  | addHolds item amount => exact agrees.count (Counter.alike_addHolds sound sound' agrees.book)
  | removeHold item => exact agrees.count (Counter.alike_removeHold sound sound' agrees.book)
  | addEdge item owner => exact agrees.count (Counter.alike_addEdge sound sound' agrees.book)
  | removeEdge item owner => exact agrees.count (Counter.alike_removeEdge sound sound' agrees.book)
  | settle =>
    obtain rfl : owed = [] := allowed
    exact agrees.settle sound sound' (eager rfl)
  | check =>
    have same := sound.ledger.valid.check_congr sound'.ledger.valid agrees.book second.budget
    refine ⟨?_, fun _ _ => agrees⟩
    simp only [World.answer, agrees.budget, same]
  | listen listener => exact ⟨rfl, fun _ _ => { agrees with }⟩
  | push id item =>
    simp only [World.answer, agrees.heap.container_eq]
    split
    · exact ⟨rfl, fun _ _ => { agrees with heap := agrees.heap.setContainer }⟩
    · exact ⟨rfl, fun _ _ => agrees⟩
  | get id index =>
    refine ⟨?_, fun _ _ => agrees⟩
    simp only [World.answer, agrees.heap.container_eq]
  | set id index item =>
    simp only [World.answer, agrees.heap.container_eq]
    exact agrees.exchange _
  | remove id index =>
    simp only [World.answer, agrees.heap.container_eq]
    exact agrees.exchange _
  | lookup id key =>
    refine ⟨?_, fun _ _ => agrees⟩
    simp only [World.answer, agrees.heap.container_eq]
  | insert id key item =>
    simp only [World.answer, agrees.heap.container_eq]
    split
    · exact ⟨rfl, fun _ _ => { agrees with heap := agrees.heap.setContainer }⟩
    · exact ⟨rfl, fun _ _ => agrees⟩
  | removeKey id key =>
    simp only [World.answer, agrees.heap.container_eq]
    exact agrees.exchange _
  | clear id =>
    simp only [World.answer, agrees.heap.container_eq]
    exact ⟨rfl, fun _ _ => { agrees with heap := agrees.heap.setContainer }⟩
  | modify id change =>
    simp only [World.answer, agrees.heap.buffer_eq]
    exact ⟨rfl, fun _ _ => { agrees with heap := agrees.heap.setBuffer }⟩

theorem perform (agrees : first.Agrees second) (sound : first.Sound owed)
    (sound' : second.Sound owed) (allowed : call.Allowed owed)
    (eager : call = .settle → first.counter.eager = second.counter.eager) :
    Responds (first.perform call) (second.perform call) := by
  unfold World.perform
  rw [agrees.heap.holds_eq]
  split
  · exact agrees.answer sound sound' allowed eager
  · exact ⟨rfl, fun _ _ => agrees⟩

end Agrees

end World

/-- Two turns are the same call with the same answer. After one that succeeds the ledgers are the
same by value, and a settle has removed the same values. -/
structure Turn.Agrees (first second : Turn) : Prop where
  call : first.call = second.call
  result : first.result = second.result
  ledgers : ∀ answer, first.result = .ok answer →
    first.after.counter.ledger.SameByValue second.after.counter.ledger
  removed : first.call = .settle → ∀ answer, first.result = .ok answer →
    (first.before.counter.settle first.before.heap).removed.Perm
      (second.before.counter.settle second.before.heap).removed

namespace World

variable {first second : World} {owed : List Due} {call : Call} {calls : List Call}

theorem eager_count {world : World} {result : Except Failure Ledger} {change : Ledger → Counter}
    (kept : ∀ ledger, (change ledger).eager = world.counter.eager) :
    (world.count (result.map change)).1.counter.eager = world.counter.eager := by
  cases result with
  | error failure => rfl
  | ok ledger => exact kept ledger

theorem eager_perform (world : World) (call : Call) :
    (world.perform call).1.counter.eager = world.counter.eager := by
  cases silent : call.counted with
  | false => rw [counter_of_silent silent]
  | true =>
    unfold perform
    split
    next =>
      cases call with
      | register item => rfl
      | settle => exact Counter.eager_settle
      | addHolds item amount => exact eager_count fun _ => rfl
      | removeHold item => exact eager_count fun _ => rfl
      | addEdge item owner => exact eager_count fun _ => rfl
      | removeEdge item owner => exact eager_count fun _ => rfl
      | _ => cases silent
    next => rfl

theorem Agrees.removed {answer : Answer} {after : World} (agrees : first.Agrees second)
    (sound : first.Sound []) (sound' : second.Sound [])
    (eager : first.counter.eager = second.counter.eager)
    (performed : first.perform .settle = (after, .ok answer)) :
    (first.counter.settle first.heap).removed.Perm (second.counter.settle second.heap).removed := by
  obtain ⟨count, result, _⟩ := settle_ok performed
  exact (Counter.settle_agrees sound sound' agrees.book agrees.heap eager).removed count result

theorem Agrees.play (agrees : first.Agrees second) (sound : first.Sound owed)
    (sound' : second.Sound owed) (eager : first.counter.eager = second.counter.eager)
    (paired : first.Paired owed calls) :
    second.Paired owed calls ∧
      List.Forall₂ Turn.Agrees (first.play owed calls) (second.play owed calls) := by
  -- On the calls: after one that succeeds in both worlds they agree and owe the same.
  induction calls generalizing first second owed with
  | nil => exact ⟨trivial, .nil⟩
  | cons call rest ih =>
    obtain ⟨allowed, later⟩ := paired
    have responds := agrees.perform sound sound' allowed fun _ => eager
    have removed : call = .settle → ∀ answer, (first.perform call).2 = .ok answer →
        (first.counter.settle first.heap).removed.Perm
          (second.counter.settle second.heap).removed := by
      rintro rfl answer answered
      obtain rfl : owed = [] := allowed
      exact agrees.removed sound sound' eager (Prod.ext rfl answered)
    have unchanged := eager_perform first call
    have unchanged' := eager_perform second call
    unfold World.play World.Paired
    obtain ⟨⟨after, result⟩, performed⟩ : ∃ out, first.perform call = out := ⟨_, rfl⟩
    obtain ⟨⟨after', result'⟩, performed'⟩ : ∃ out, second.perform call = out := ⟨_, rfl⟩
    rw [performed, performed'] at responds
    rw [performed] at removed unchanged
    rw [performed'] at unchanged'
    rw [performed, performed']
    obtain rfl : result = result' := responds.result
    cases result with
    | error error =>
      refine ⟨⟨allowed, fun _ _ succeeded => by cases succeeded⟩, .cons ⟨rfl, rfl, ?_, removed⟩ .nil⟩
      exact fun _ failed => by cases failed
    | ok answer =>
      have next := responds.worlds answer rfl
      have kept := sound.perform allowed performed
      have kept' := sound'.perform allowed performed'
      obtain ⟨paired, turns⟩ := ih next kept kept'
        (unchanged.trans (eager.trans unchanged'.symm)) (later after answer performed)
      refine ⟨⟨allowed, ?_⟩, .cons ⟨rfl, rfl, fun _ _ => ?_, removed⟩ turns⟩
      · rintro _ _ ⟨⟩
        exact paired
      · exact kept.ledger.valid.sameByValue kept'.ledger.valid next.book

/-- A paired run is paired under either strategy, and cannot be told from the same run under the
other one. -/
theorem strategies_agree (settings : Settings) (listener : Listener) {calls : List Call}
    (paired : ({ settings with strategy := .markSweep }.world listener).Paired [] calls) :
    ({ settings with strategy := .incremental }.world listener).Paired [] calls ∧
      List.Forall₂ Turn.Agrees
        (({ settings with strategy := .markSweep }.world listener).play [] calls)
        (({ settings with strategy := .incremental }.world listener).play [] calls) := by
  have agrees : ({ settings with strategy := .markSweep }.world listener).Agrees
      ({ settings with strategy := .incremental }.world listener) :=
    ⟨rfl, ⟨rfl, rfl⟩, rfl, rfl⟩
  exact agrees.play (sound_world _ listener) (sound_world _ listener) rfl paired

theorem strategies_agree_cycle : List.Forall₂ Turn.Agrees
    (({ strategy := .markSweep : Settings }.world .recorder).play [] cycleCalls)
    (({ strategy := .incremental : Settings }.world .recorder).play [] cycleCalls) :=
  (strategies_agree {} .recorder (by decide +kernel)).2

end World

end Reclaim
