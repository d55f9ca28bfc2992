import Mathlib.Algebra.GroupWithZero.Nat
import Mathlib.Algebra.Ring.Int.Defs
import Reclaim.Proofs.Graph.Marking
import Reclaim.Replay.Session

/-! Scripts on a plain heap. It has no ledger, no slots, nothing pending and nothing cached: it knows
the contents of its values, the holds on each of them and, as one number, the holds on scalars. A
settle deletes every value that no held value leads to. -/

set_option autoImplicit false

namespace Reclaim

/-- A container or, without contents, a buffer, under the name that it was created with. -/
structure Cell where
  name : String
  held : Nat := 0
  content : Option Container := none

/-- Identities are handed out in order, and deleted cells are empty. -/
@[ext] structure Machine where
  cells : Ident → Option Cell := fun _ => none
  scalars : Int := 0
  bindings : Std.ExtTreeMap String Value compare := ∅
  created : Nat := 0

namespace Machine

def idents (machine : Machine) : List Ident :=
  (List.range machine.created).filter fun id => (machine.cells id).isSome

theorem nodup_idents {machine : Machine} : machine.idents.Nodup :=
  List.Pairwise.filter _ List.nodup_range

def held (machine : Machine) (id : Ident) : Nat := ((machine.cells id).map (·.held)).getD 0

def content (machine : Machine) (id : Ident) : Option Container :=
  (machine.cells id).bind (·.content)

def children (machine : Machine) (id : Ident) : List Value :=
  ((machine.content id).map Container.children).getD []

def total (machine : Machine) : Int :=
  (machine.idents.map fun id => machine.held id + (machine.children id).length).sum +
    machine.scalars

def graph (machine : Machine) : Digraph where
  nodes := .ofList machine.idents
  successors id := (machine.children id).filterMap Value.id?

def roots (machine : Machine) : List Ident :=
  machine.idents.filter fun id => 0 < machine.held id

def Live (machine : Machine) (id : Ident) : Prop :=
  ∃ root ∈ machine.roots, machine.graph.Reach root id

theorem live_iff {machine : Machine} {id : Ident} : machine.Live id ↔
    id ∈ machine.graph.nodes ∧ id ∉ machine.graph.unreached machine.roots := by
  rw [Digraph.mem_unreached]
  constructor
  · rintro ⟨root, rooted, path⟩
    exact ⟨path.target_mem, fun unreached => unreached.2 root rooted path⟩
  · rintro ⟨present, reached⟩
    simpa [present, Live] using reached

instance decidableLive (machine : Machine) (id : Ident) : Decidable (machine.Live id) :=
  decidable_of_iff _ live_iff.symm

def dead (machine : Machine) : List Ident :=
  machine.idents.filter fun id => ¬machine.Live id

def without (machine : Machine) (ids : List Ident) : Machine :=
  { machine with
    cells := fun id => if id ∈ ids then none else machine.cells id
    bindings := machine.bindings.filter fun _ value => !value.id?.any ids.contains }

def check (machine : Machine) (budget : Budget) : Except BudgetError Unit :=
  if machine.total.toNat > budget.maxReferences then
    .error (.references machine.total.toNat budget.maxReferences)
  else if machine.idents.length > budget.maxTracked then
    .error (.tracked machine.idents.length budget.maxTracked)
  else
    .ok ()

def settle (machine : Machine) (budget : Budget) (line : Nat) :
    Except Fault (Machine × Option Report) :=
  let next := machine.without machine.dead
  let names := machine.dead.filterMap fun id => (machine.cells id).map (·.name)
  let report : Report :=
    { line, count := next.total.toNat, retained := next.idents.length, removed := sortNames names }
  ((next.check budget).mapError (.failed line <| .budget ·)).map fun _ => (next, some report)

def bind (machine : Machine) (name : String) (value : Value) : Machine :=
  { machine with bindings := machine.bindings.insert name value }

def create (machine : Machine) (ref : Ident → Ref) (name : String) (content : Option Container) :
    Machine :=
  { machine with
    cells := fun id => if id = machine.created then some { name, content } else machine.cells id
    bindings := machine.bindings.insert name (.shared (ref machine.created))
    created := machine.created + 1 }

def modify (machine : Machine) (id : Ident) (change : Cell → Cell) : Machine :=
  { machine with
    cells := fun other => if other = id then (machine.cells id).map change else machine.cells other }

def setContent (machine : Machine) (id : Ident) (container : Container) : Machine :=
  machine.modify id ({ · with content := some container })

def addHolds (machine : Machine) (count : Nat) : Value → Machine
  | .scalar _ => { machine with scalars := machine.scalars + count }
  | .shared ref => machine.modify ref.id fun cell => { cell with held := cell.held + count }

def removeHold (machine : Machine) (line : Nat) : Value → Except Fault Machine
  | .scalar _ => .ok { machine with scalars := machine.scalars - 1 }
  | .shared ref =>
    if machine.held ref.id = 0 then .error (.failed line (.ledger (.holdUnderflow ref.id)))
    else .ok (machine.modify ref.id fun cell => { cell with held := cell.held - 1 })

def lookup (machine : Machine) (line : Nat) (name : String) : Except Fault Value :=
  match machine.bindings[name]? with
  | some value => .ok value
  | none => .error (.failed line (.unknownName name))

def kindName (machine : Machine) : Value → String
  | .scalar atom => atom.kindName
  | .shared ref => ((machine.content ref.id).map (·.kind.name)).getD "buffer"

def container (machine : Machine) (line : Nat) (name : String) (expected : Expected) :
    Except Fault (Ident × Container) := do
  let value ← machine.lookup line name
  let mismatch := .error (.failed line (.wrongKind name (machine.kindName value) expected))
  match value.id?.bind fun id => (machine.content id).map (id, ·) with
  | none => mismatch
  | some (id, container) =>
    if expected.accepts container.kind then return (id, container) else mismatch

def push (machine : Machine) (line : Nat) (name : String) (count : Nat) : Except Fault Machine := do
  let item ← machine.lookup line name
  return machine.addHolds count item

def pop (machine : Machine) (line : Nat) (name : String) : Except Fault Machine := do
  let item ← machine.lookup line name
  machine.removeHold line item

def append (machine : Machine) (line : Nat) (owner child : String) : Except Fault Machine := do
  let (id, container) ← machine.container line owner .list
  let item ← machine.lookup line child
  return machine.setContent id ((container.push? item).getD container)

def set (machine : Machine) (line : Nat) (owner : String) (index : Nat) (child : String) :
    Except Fault Machine := do
  let (id, container) ← machine.container line owner .list
  let item ← machine.lookup line child
  match container.set? index item with
  | none => .error (.failed line (.indexOutOfRange owner index))
  | some (_, container) => return machine.setContent id container

def put (machine : Machine) (line : Nat) (owner key child : String) : Except Fault Machine := do
  let (id, container) ← machine.container line owner .map
  let item ← machine.lookup line child
  let (_, container) := (container.insert? (encodeText key) item).getD (none, container)
  return machine.setContent id container

def remove (machine : Machine) (line : Nat) (owner : String) (index : Nat) :
    Except Fault Machine := do
  let (id, container) ← machine.container line owner .list
  match container.remove? index with
  | none => .error (.failed line (.indexOutOfRange owner index))
  | some (_, container) => return machine.setContent id container

def delete (machine : Machine) (line : Nat) (owner key : String) : Except Fault Machine := do
  let (id, container) ← machine.container line owner .map
  match container.removeKey? (encodeText key) with
  | none => .error (.failed line (.missingKey owner key))
  | some (_, container) => return machine.setContent id container

def clear (machine : Machine) (line : Nat) (owner : String) : Except Fault Machine := do
  let (id, container) ← machine.container line owner .container
  return machine.setContent id container.clear

def step (machine : Machine) (budget : Budget) (line : ScriptLine) :
    Except Fault (Machine × Option Report) :=
  let quiet (outcome : Except Fault Machine) := outcome.map fun next => (next, none)
  match line.op with
  | .newContainer kind name => quiet (.ok (machine.create .container name (some (.empty kind))))
  | .newBuffer name _ => quiet (.ok (machine.create .buffer name none))
  | .int name value => quiet (.ok (machine.bind name (.scalar (.integer value))))
  | .bytes name text => quiet (.ok (machine.bind name (.scalar (.bytes (encodeText text)))))
  | .push name count => quiet (machine.push line.number name count)
  | .pop name => quiet (machine.pop line.number name)
  | .append owner child => quiet (machine.append line.number owner child)
  | .set owner index child => quiet (machine.set line.number owner index child)
  | .put owner key child => quiet (machine.put line.number owner key child)
  | .remove owner index => quiet (machine.remove line.number owner index)
  | .delete owner key => quiet (machine.delete line.number owner key)
  | .clear owner => quiet (machine.clear line.number owner)
  | .settle => machine.settle budget line.number

def run (machine : Machine) (budget : Budget) : List ScriptLine → Except Fault (List Report)
  | [] => .ok []
  | line :: rest => do
    let (next, report) ← machine.step budget line
    let reports ← next.run budget rest
    return report.toList ++ reports

end Machine

end Reclaim
