import Reclaim.Proofs.Collect.Cache
import Reclaim.Proofs.Collect.Shedding
import Reclaim.Proofs.Heap.Changes
import Reclaim.Proofs.World.Pairing

/-! Runs of any calls: containers may hold what the counter was never told of, and calls may be refused.
The arena of the ledger is in order all the same. -/

set_option autoImplicit false

namespace Reclaim

inductive Counter.Hears (counter : Counter) (heap : Heap) : Call → Counter → Prop where
  | register (item : Value) : counter.Hears heap (.register item) (counter.register item)
  | addHolds {item : Value} {count : Nat} {next : Counter}
      (added : counter.addHolds item count = .ok next) : counter.Hears heap (.addHolds item count) next
  | removeHold {item : Value} {next : Counter} (removed : counter.removeHold item = .ok next) :
      counter.Hears heap (.removeHold item) next
  | addEdge {item owner : Value} {next : Counter} (added : counter.addEdge item owner = .ok next) :
      counter.Hears heap (.addEdge item owner) next
  | removeEdge {item owner : Value} {next : Counter}
      (removed : counter.removeEdge item owner = .ok next) :
      counter.Hears heap (.removeEdge item owner) next
  | settle : counter.Hears heap .settle (counter.settle heap).counter

structure Counter.Orderly (counter : Counter) : Prop where
  valid : counter.ledger.Valid
  nodup : counter.Caches List.Nodup

namespace Counter.Hears

variable {counter next : Counter} {heap : Heap} {call : Call} {good : Component → Prop}

theorem caches (hears : counter.Hears heap call next) (caches : counter.Caches good)
    (single : ∀ slot, good [slot])
    (fresh : ∀ graph : Digraph, ∀ component ∈ graph.components, good component) : next.Caches good := by
  cases hears with
  | register item => exact caches.extend single
  | addHolds added =>
    obtain ⟨ledger, _, rfl⟩ := addHolds_ok added
    exact caches.extend single
  | removeHold removed =>
    obtain ⟨ledger, _, rfl⟩ := removeHold_ok removed
    exact caches
  | addEdge added =>
    obtain ⟨ledger, _, rfl⟩ := addEdge_ok added
    exact caches_relink
  | removeEdge removed =>
    obtain ⟨ledger, _, rfl⟩ := removeEdge_ok removed
    exact caches_relink
  | settle => exact caches.settle fresh

theorem fixed (hears : counter.Hears heap call next) :
    next.strategy = counter.strategy ∧ next.eager = counter.eager := by
  cases hears with
  | register item => exact ⟨rfl, rfl⟩
  | addHolds added =>
    obtain ⟨ledger, _, rfl⟩ := addHolds_ok added
    exact ⟨rfl, rfl⟩
  | removeHold removed =>
    obtain ⟨ledger, _, rfl⟩ := removeHold_ok removed
    exact ⟨rfl, rfl⟩
  | addEdge added =>
    obtain ⟨ledger, _, rfl⟩ := addEdge_ok added
    exact ⟨rfl, rfl⟩
  | removeEdge removed =>
    obtain ⟨ledger, _, rfl⟩ := removeEdge_ok removed
    exact ⟨rfl, rfl⟩
  | settle => exact fixed_settle

/-- But for settles, a call changes the ledger in small steps. -/
theorem changes (hears : counter.Hears heap call next) (valid : counter.ledger.Valid) :
    call = .settle ∧ next = (counter.settle heap).counter ∨
      call ≠ .settle ∧ counter.ledger.Changes next.ledger := by
  cases hears with
  | settle => exact .inl ⟨rfl, rfl⟩
  | register item => exact .inr ⟨by simp, Ledger.changes_register valid⟩
  | addHolds added =>
    obtain ⟨ledger, result, rfl⟩ := addHolds_ok added
    exact .inr ⟨by simp, Ledger.changes_addHolds valid result⟩
  | removeHold removed =>
    obtain ⟨ledger, result, rfl⟩ := removeHold_ok removed
    exact .inr ⟨by simp, Ledger.changes_removeHold valid result⟩
  | addEdge added =>
    obtain ⟨ledger, result, rfl⟩ := addEdge_ok added
    exact .inr ⟨by simp, Ledger.changes_addEdge valid result⟩
  | removeEdge removed =>
    obtain ⟨ledger, result, rfl⟩ := removeEdge_ok removed
    exact .inr ⟨by simp, Ledger.changes_removeEdge valid result⟩

theorem orderly (hears : counter.Hears heap call next) (orderly : counter.Orderly) : next.Orderly where
  valid := by
    obtain ⟨_, rfl⟩ | ⟨_, changes⟩ := hears.changes orderly.valid
    · exact (settle_sheds orderly.valid orderly.nodup).ledger.valid
    · exact orderly.valid.changes changes
  nodup := hears.caches orderly.nodup List.nodup_singleton fun _ => nodup_components

end Counter.Hears

namespace World

/-- The world after calls, whatever the answers to them. -/
def after (world : World) : List Call → World
  | [] => world
  | call :: rest => (world.perform call).1.after rest

theorem after_append (world : World) (calls more : List Call) :
    world.after (calls ++ more) = (world.after calls).after more := by
  induction calls generalizing world with
  | nil => rfl
  | cons call rest ih => exact ih (world.perform call).1

variable {world : World} {call : Call}

theorem hears_perform (world : World) (call : Call) :
    (world.perform call).1.counter = world.counter ∧
        (call.counted = false ∨ (world.perform call).2.isOk = false) ∨
      world.counter.Hears world.heap call (world.perform call).1.counter ∧
        (call = .settle ∨ (world.perform call).2.isOk = true) := by
  cases counted : call.counted with
  | false => exact .inl ⟨counter_of_silent counted, .inl rfl⟩
  | true =>
    have taken {result : Except Failure Counter}
        (hears : ∀ counter, result = .ok counter → world.counter.Hears world.heap call counter) :
        (world.count result).1.counter = world.counter ∧
            (call.counted = false ∨ (world.count result).2.isOk = false) ∨
          world.counter.Hears world.heap call (world.count result).1.counter ∧
            (call = .settle ∨ (world.count result).2.isOk = true) := by
      cases result with
      | error failure => exact .inl ⟨rfl, .inr rfl⟩
      | ok counter => exact .inr ⟨hears counter rfl, .inr rfl⟩
    rw [← counted]
    unfold perform
    split
    next =>
      cases call with
      | register item => exact .inr ⟨.register item, .inr rfl⟩
      | addHolds item count => exact taken fun counter => .addHolds
      | removeHold item => exact taken fun counter => .removeHold
      | addEdge item owner => exact taken fun counter => .addEdge
      | removeEdge item owner => exact taken fun counter => .removeEdge
      | settle => exact .inr ⟨.settle, .inl rfl⟩
      | _ => cases counted
    next => exact .inl ⟨rfl, .inr rfl⟩

theorem orderly_perform (orderly : world.counter.Orderly) (call : Call) :
    (world.perform call).1.counter.Orderly := by
  obtain ⟨same, _⟩ | ⟨hears, _⟩ := hears_perform world call
  · exact same ▸ orderly
  · exact hears.orderly orderly

theorem slot_perform_of_busy {id : Ident} {slot : Slot}
    (valid : world.counter.ledger.Valid) (busy : call ≠ .settle)
    (known : world.counter.ledger.slot? id = some slot) :
    (world.perform call).1.counter.ledger.slot? id = some slot := by
  obtain ⟨same, _⟩ | ⟨hears, _⟩ := hears_perform world call
  · exact same ▸ known
  · obtain ⟨settles, _⟩ | ⟨_, changes⟩ := hears.changes valid
    · exact absurd settles busy
    · exact changes.slot?_eq known

structure Touches (world : World) (touched : Option Ref) (after : World) : Prop where
  created : world.created ≤ after.created
  ref : ∀ ref ∈ touched, world.heap.holds (.shared ref) ∨ ref.id = world.created ∧ world.created < after.created

theorem touches_perform (world : World) (busy : call ≠ .settle) :
    ∃ touched, world.heap.Change touched (world.perform call).1.heap ∧
      world.Touches touched (world.perform call).1 := by
  have nothing {after : World} (created : after.created = world.created) : world.Touches none after :=
    ⟨Nat.le_of_eq created.symm, nofun⟩
  have made (ref : Ident → Ref) (id : (ref world.created).id = world.created) (heap : Heap) :
      world.Touches (some (ref world.created)) (world.make ref heap).1 :=
    ⟨Nat.le_succ _, by rintro _ ⟨⟩; exact .inr ⟨id, Nat.lt_succ_self _⟩⟩
  unfold perform
  split
  next exists_all =>
    have present {after : World} {ref : Ref} (named : .shared ref ∈ call.values)
        (created : after.created = world.created) : world.Touches (some ref) after :=
      ⟨Nat.le_of_eq created.symm, by rintro _ ⟨⟩; exact .inl (List.all_eq_true.mp exists_all _ named)⟩
    cases call with
    | settle => exact absurd rfl busy
    | register _ | check | listen _ | get _ _ | lookup _ _ => exact ⟨_, .none, nothing rfl⟩
    | addHolds _ _ | removeHold _ | addEdge _ _ | removeEdge _ _ =>
      simp only [World.answer, count]
      split <;> exact ⟨_, .none, nothing rfl⟩
    | newContainer _ => exact ⟨_, .fill _ _, made .container rfl _⟩
    | clear _ => exact ⟨_, .fill _ _, present (by simp [Call.values]) rfl⟩
    | newBuffer size =>
      simp only [World.answer, Heap.newBuffer]
      by_cases fits : size ≤ maxCapacity
      · simp only [if_pos fits]
        exact ⟨_, .make _ _ false world.heap.pool, made .buffer rfl _⟩
      · simp only [if_neg fits]
        exact ⟨_, .none, nothing rfl⟩
    | rentBuffer size =>
      simp only [World.answer, Heap.rentBuffer]
      by_cases fits : size ≤ maxCapacity
      · simp only [if_pos fits]
        exact ⟨_, .make _ _ true _, made .buffer rfl _⟩
      · simp only [if_neg fits]
        exact ⟨_, .none, nothing rfl⟩
    | push _ _ | insert _ _ _ =>
      simp only [World.answer]
      split
      · exact ⟨_, .fill _ _, present (by simp [Call.values]) rfl⟩
      · exact ⟨_, .none, nothing rfl⟩
    | set _ _ _ | remove _ _ | removeKey _ _ =>
      simp only [World.answer, exchange]
      split
      · exact ⟨_, .fill _ _, present (by simp [Call.values]) rfl⟩
      · exact ⟨_, .none, nothing rfl⟩
    | modify id change => exact ⟨_, .modify id change, present (by simp [Call.values]) rfl⟩
  next => exact ⟨_, .none, nothing rfl⟩

theorem change_perform (world : World) (busy : call ≠ .settle) :
    ∃ touched, world.heap.Change touched (world.perform call).1.heap := by
  obtain ⟨touched, change, _⟩ := touches_perform world busy
  exact ⟨touched, change⟩

/-- What every heard call keeps of a counter is kept by every run. -/
theorem after_induction {Keeps : Counter → Prop} (calls : List Call) (start : Keeps world.counter)
    (step : ∀ counter heap call next, counter.Hears heap call next → Keeps counter → Keeps next) :
    Keeps (world.after calls).counter := by
  induction calls generalizing world with
  | nil => exact start
  | cons call rest ih =>
    apply ih
    obtain ⟨same, _⟩ | ⟨hears, _⟩ := hears_perform world call
    · exact same ▸ start
    · exact step _ _ _ _ hears start

theorem fixed_after (settings : Settings) (listener : Listener) (calls : List Call) :
    ((settings.world listener).after calls).counter.strategy = settings.strategy ∧
      ((settings.world listener).after calls).counter.eager = settings.eager := by
  have keeps {counter next : Counter} {heap : Heap} {call : Call}
      (hears : counter.Hears heap call next)
      (same : counter.strategy = settings.strategy ∧ counter.eager = settings.eager) :
      next.strategy = settings.strategy ∧ next.eager = settings.eager :=
    ⟨hears.fixed.1.trans same.1, hears.fixed.2.trans same.2⟩
  exact after_induction calls ⟨rfl, rfl⟩ fun _ _ _ _ => keeps

theorem orderly_after (settings : Settings) (listener : Listener) (calls : List Call) :
    ((settings.world listener).after calls).counter.Orderly :=
  after_induction calls ⟨Ledger.valid_empty, fun _ present => nomatch present⟩
    fun _ _ _ _ hears => hears.orderly

end World

end Reclaim
