import Reclaim.Collect.Settle
import Reclaim.Replay.Fault
import Reclaim.Replay.Report

/-! A session executes the lines of a script. Each container operation changes the container
first and then tells the counter of the children gained and lost. A settle unbinds the names
of the values that it collects, so that no later line can reach them. -/

set_option autoImplicit false

namespace Reclaim

/-- `bindings` are the values by name, `origins` the name that each tracked value was created
under. `identify` gives the identity of the container or buffer that is created next, after
`created` others. -/
structure Session where
  heap : Heap := {}
  counter : Counter := {}
  budget : Budget := {}
  bindings : Std.ExtTreeMap String Value compare := ∅
  origins : Std.ExtTreeMap Ident String compare := ∅
  created : Nat := 0
  identify : Nat → Ident := id

structure StepResult where
  outcome : Except Fault (Session × Option Report)
  log : List LogRecord := []

namespace Session

def bind (session : Session) (name : String) (value : Value) : Session :=
  { session with bindings := session.bindings.insert name value }

def lookup (session : Session) (line : Nat) (name : String) : Except Fault Value :=
  match session.bindings[name]? with
  | some value => .ok value
  | none => .error (.failed line (.unknownName name))

def container (session : Session) (line : Nat) (name : String) (expected : Expected) :
    Except Fault (Ident × Container) := do
  let value ← session.lookup line name
  let mismatch := .error
    (.failed line (.wrongKind name (session.heap.kindName value) expected))
  match value.container? with
  | none => mismatch
  | some id =>
    let container := session.heap.container id
    if expected.accepts container.kind then return (id, container) else mismatch

def nextIdent (session : Session) : Ident := session.identify session.created

def create (session : Session) (ref : Ref) (name : String) (heap : Heap) : Session :=
  { session with
    heap
    counter := session.counter.register (.shared ref)
    bindings := session.bindings.insert name (.shared ref)
    origins := session.origins.insert ref.id name
    created := session.created + 1 }

def setContainer (session : Session) (id : Ident) (container : Container) : Session :=
  { session with heap := session.heap.setContainer id container }

def count (session : Session) (line : Nat) (change : Counter → Except Failure Counter) :
    Except Fault Session :=
  match change session.counter with
  | .ok counter => .ok { session with counter }
  | .error (.refused error) => .error (.failed line (.ledger error))
  | .error (.aborted abort) => .error (.aborted abort)

def gain (session : Session) (line : Nat) (owner : Ident) (child : Value) : Except Fault Session :=
  session.count line (·.addEdge child (.shared (.container owner)))

def lose (session : Session) (line : Nat) (owner : Ident) (child : Value) : Except Fault Session :=
  session.count line (·.removeEdge child (.shared (.container owner)))

def loseAll (session : Session) (line : Nat) (owner : Ident) : List Value → Except Fault Session
  | [] => .ok session
  | child :: rest => do (← session.lose line owner child).loseAll line owner rest

def newContainer (session : Session) (kind : Kind) (name : String) : Session :=
  let id := session.nextIdent
  session.create (.container id) name (session.heap.newContainer id kind)

def newBuffer (session : Session) (name : String) (size : Nat) : Except Fault Session :=
  let id := session.nextIdent
  ((session.heap.newBuffer id size).mapError .aborted).map (session.create (.buffer id) name)

def push (session : Session) (line : Nat) (name : String) (count : Nat) : Except Fault Session := do
  let item ← session.lookup line name
  session.count line (·.addHolds item count)

def pop (session : Session) (line : Nat) (name : String) : Except Fault Session := do
  let item ← session.lookup line name
  session.count line (·.removeHold item)

def append (session : Session) (line : Nat) (owner child : String) : Except Fault Session := do
  let (id, container) ← session.container line owner .list
  let item ← session.lookup line child
  let container := (container.push? item).getD container
  (session.setContainer id container).gain line id item

def set (session : Session) (line : Nat) (owner : String) (index : Nat) (child : String) :
    Except Fault Session := do
  let (id, container) ← session.container line owner .list
  let item ← session.lookup line child
  match container.set? index item with
  | none => .error (.failed line (.indexOutOfRange owner index))
  | some (old, container) =>
    -- The new child is gained before the old one is lost.
    (← (session.setContainer id container).gain line id item).lose line id old

def put (session : Session) (line : Nat) (owner key child : String) : Except Fault Session := do
  let (id, container) ← session.container line owner .map
  let item ← session.lookup line child
  let (old, container) := (container.insert? (encodeText key) item).getD (none, container)
  -- Here too the new child comes first.
  (← (session.setContainer id container).gain line id item).loseAll line id old.toList

def remove (session : Session) (line : Nat) (owner : String) (index : Nat) :
    Except Fault Session := do
  let (id, container) ← session.container line owner .list
  match container.remove? index with
  | none => .error (.failed line (.indexOutOfRange owner index))
  | some (old, container) => (session.setContainer id container).lose line id old

def delete (session : Session) (line : Nat) (owner key : String) : Except Fault Session := do
  let (id, container) ← session.container line owner .map
  match container.removeKey? (encodeText key) with
  | none => .error (.failed line (.missingKey owner key))
  | some (old, container) => (session.setContainer id container).lose line id old

def clear (session : Session) (line : Nat) (owner : String) : Except Fault Session := do
  let (id, container) ← session.container line owner .container
  (session.setContainer id container.clear).loseAll line id container.children

/-- Forget a collected identity: the name it was created under no longer names it. A name that
has been bound to another value since then keeps that value. -/
def forget (session : Session) (id : Ident) : Session :=
  match session.origins[id]? with
  | none => session
  | some name =>
    { session with
      origins := session.origins.erase id
      bindings :=
        if (session.bindings[name]?.bind Value.id?) = some id then session.bindings.erase name
        else session.bindings }

def settle (session : Session) (line : Nat) : StepResult :=
  let settlement := session.counter.settle session.heap
  match settlement.result with
  | .error error => { outcome := .error (.failed line (.ledger error)), log := settlement.log }
  | .ok count =>
    let collected := settlement.removed.map (·.1.id)
    let names := collected.filterMap (session.origins[·]?)
    let stats := settlement.counter.stats
    let log := settlement.log ++ [.reported session.counter.strategy line stats]
    let session := collected.foldl forget
      { session with heap := settlement.heap, counter := settlement.counter }
    match session.budget.check session.counter.ledger with
    | .error error => { outcome := .error (.failed line (.budget error)), log }
    | .ok () =>
      let report : Report :=
        { line, count, retained := stats.retained, removed := sortNames names }
      { outcome := .ok (session, some report), log }

def quiet (outcome : Except Fault Session) : StepResult where
  outcome := outcome.map fun next => (next, none)

def step (session : Session) (line : ScriptLine) : StepResult :=
  match line.op with
  | .newContainer kind name => quiet (.ok (session.newContainer kind name))
  | .newBuffer name size => quiet (session.newBuffer name size)
  | .int name value => quiet (.ok (session.bind name (.scalar (.integer value))))
  | .bytes name text => quiet (.ok (session.bind name (.scalar (.bytes (encodeText text)))))
  | .push name count => quiet (session.push line.number name count)
  | .pop name => quiet (session.pop line.number name)
  | .append owner child => quiet (session.append line.number owner child)
  | .set owner index child => quiet (session.set line.number owner index child)
  | .put owner key child => quiet (session.put line.number owner key child)
  | .remove owner index => quiet (session.remove line.number owner index)
  | .delete owner key => quiet (session.delete line.number owner key)
  | .clear owner => quiet (session.clear line.number owner)
  | .settle => session.settle line.number

def run (session : Session) : List ScriptLine → Except Fault (List Report)
  | [] => .ok []
  | line :: rest => do
    let (next, report) ← (session.step line).outcome
    let reports ← next.run rest
    return report.toList ++ reports

end Session

end Reclaim
