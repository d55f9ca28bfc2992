import Reclaim.Collect.Settle
import Reclaim.Settings

/-! A world is all that a host program works with: the heap, a counter over it, a listener on
the counter and a budget. The host is free to change containers without telling the counter. -/

set_option autoImplicit false

namespace Reclaim

inductive Listener where
  | absent
  | silent
  | recorder
  deriving DecidableEq, Repr

inductive Event where
  /-- A value was collected that had this many children. -/
  | collected (ref : Ref) (children : Nat)
  | settled (stats : Stats)
  deriving DecidableEq, Repr

def Settlement.events (settlement : Settlement) : List Event :=
  settlement.removed.map (fun (ref, children) => .collected ref children) ++
    settlement.announced.toList.map .settled

/-- `created` is the number of containers and buffers made so far; the next one is identified
by it. `events` and `log` are what the recorder and the journal hold, in order. -/
structure World where
  heap : Heap := {}
  counter : Counter := {}
  budget : Budget := {}
  listener : Listener := .absent
  created : Nat := 0
  events : List Event := []
  log : List LogRecord := []

def Settings.world (settings : Settings) (listener : Listener) : World where
  counter := settings.counter
  budget := settings.budget
  listener

inductive Call where
  | newContainer (kind : Kind)
  | newBuffer (size : Nat)
  | rentBuffer (size : Nat)
  | register (item : Value)
  | addHolds (item : Value) (count : Nat)
  | removeHold (item : Value)
  | addEdge (item owner : Value)
  | removeEdge (item owner : Value)
  | settle
  | check
  | listen (listener : Listener)
  | push (container : Ident) (item : Value)
  | get (container : Ident) (index : Nat)
  | set (container : Ident) (index : Nat) (item : Value)
  | remove (container : Ident) (index : Nat)
  | lookup (container : Ident) (key : Key)
  | insert (container : Ident) (key : Key) (item : Value)
  | removeKey (container : Ident) (key : Key)
  | clear (container : Ident)
  | modify (buffer : Ident) (change : Nat → UInt8 → UInt8)

def Call.values : Call → List Value
  | .newContainer _ | .newBuffer _ | .rentBuffer _ | .settle | .check | .listen _ => []
  | .register item | .addHolds item _ | .removeHold item => [item]
  | .addEdge item owner | .removeEdge item owner => [item, owner]
  | .push id item | .set id _ item | .insert id _ item => [.shared (.container id), item]
  | .get id _ | .remove id _ | .lookup id _ | .removeKey id _ | .clear id =>
    [.shared (.container id)]
  | .modify id _ => [.shared (.buffer id)]

inductive Answer where
  | done
  | made (value : Value)
  | number (count : Nat)
  | flag (holds : Bool)
  | value (value : Option Value)
  | values (values : List Value)
  /-- An insertion was made in place of another child, or of none. -/
  | replaced (old : Option Value)
  /-- An insertion was not made, and its value comes back. -/
  | rejected (item : Value)
  deriving DecidableEq

inductive CallError where
  | failed (failure : Failure)
  | exceeded (error : BudgetError)
  | unknownValue
  deriving DecidableEq, Repr

namespace World

def make (world : World) (ref : Ident → Ref) (heap : Heap) : World × Except CallError Answer :=
  ({ world with heap, created := world.created + 1 }, .ok (.made (.shared (ref world.created))))

def count (world : World) : Except Failure Counter → World × Except CallError Answer
  | .ok counter => ({ world with counter }, .ok .done)
  | .error failure => (world, .error (.failed failure))

def settle (world : World) : World × Except CallError Answer :=
  let settlement := world.counter.settle world.heap
  let heard := if world.listener = .recorder then settlement.events else []
  ({ world with
      heap := settlement.heap
      counter := settlement.counter
      events := world.events ++ heard
      log := world.log ++ settlement.log },
    match settlement.result with
    | .ok count => .ok (.number count)
    | .error error => .error (.failed (.refused error)))

def exchange (world : World) (id : Ident) :
    Option (Value × Container) → World × Except CallError Answer
  | some (old, container) =>
    ({ world with heap := world.heap.setContainer id container }, .ok (.value (some old)))
  | none => (world, .ok (.value none))

def answer (world : World) : Call → World × Except CallError Answer
  | .newContainer kind => world.make .container (world.heap.newContainer world.created kind)
  | .newBuffer size =>
    match world.heap.newBuffer world.created size with
    | .ok heap => world.make .buffer heap
    | .error abort => (world, .error (.failed (.aborted abort)))
  | .rentBuffer size =>
    match world.heap.rentBuffer world.created size with
    | .ok heap => world.make .buffer heap
    | .error abort => (world, .error (.failed (.aborted abort)))
  | .register item => ({ world with counter := world.counter.register item }, .ok .done)
  | .addHolds item count => world.count (world.counter.addHolds item count)
  | .removeHold item => world.count (world.counter.removeHold item)
  | .addEdge item owner => world.count (world.counter.addEdge item owner)
  | .removeEdge item owner => world.count (world.counter.removeEdge item owner)
  | .settle => world.settle
  | .check =>
    (world, match world.budget.check world.counter.ledger with
      | .ok () => .ok .done
      | .error error => .error (.exceeded error))
  | .listen listener => ({ world with listener }, .ok .done)
  | .push id item =>
    match (world.heap.container id).push? item with
    | some container => ({ world with heap := world.heap.setContainer id container }, .ok (.flag true))
    | none => (world, .ok (.flag false))
  | .get id index => (world, .ok (.value ((world.heap.container id).get? index)))
  | .set id index item => world.exchange id ((world.heap.container id).set? index item)
  | .remove id index => world.exchange id ((world.heap.container id).remove? index)
  | .lookup id key => (world, .ok (.value ((world.heap.container id).lookup? key)))
  | .insert id key item =>
    match (world.heap.container id).insert? key item with
    | some (old, container) =>
      ({ world with heap := world.heap.setContainer id container }, .ok (.replaced old))
    | none => (world, .ok (.rejected item))
  | .removeKey id key => world.exchange id ((world.heap.container id).removeKey? key)
  | .clear id =>
    let container := world.heap.container id
    ({ world with heap := world.heap.setContainer id container.clear },
      .ok (.values container.children))
  | .modify id change =>
    let buffer := world.heap.buffer id
    ({ world with heap := world.heap.setBuffer id { buffer with block := buffer.block.modify change } },
      .ok (.number buffer.length))

/-- Perform a call. The world goes on after an error that refuses it, and a call that names a
value that was never made is refused. An abort is the end of the program's run: what the world
is after one, no call gets to see. -/
def perform (world : World) (call : Call) : World × Except CallError Answer :=
  if call.values.all world.heap.holds then world.answer call else (world, .error .unknownValue)

end World

end Reclaim
