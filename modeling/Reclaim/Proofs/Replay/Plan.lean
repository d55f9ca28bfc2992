import Reclaim.Proofs.World.Stretch
import Reclaim.Replay.Session

/-! The lines of a script are paired. Every line but a settle is a call on the world of its session,
with the payments for it, and nothing is owed after it. -/

set_option autoImplicit false

namespace Reclaim

def CallError.fault (line : Nat) : CallError → Fault
  | .failed (.refused error) => .failed line (.ledger error)
  | .failed (.aborted abort) => .aborted abort
  | .exceeded error => .failed line (.budget error)
  | .unknownValue => .failed line (.unknownName "")

namespace Session

def world (session : Session) : World where
  heap := session.heap
  counter := session.counter
  budget := session.budget
  created := session.created

def resume (session : Session) (world : World) : Session :=
  { session with heap := world.heap, counter := world.counter, created := world.created }

/-- Bind a name. A shared value is known by it from now on. -/
def label (session : Session) : Option (String × Value) → Session
  | none => session
  | some (name, .scalar atom) => session.bind name (.scalar atom)
  | some (name, .shared ref) =>
    { session.bind name (.shared ref) with origins := session.origins.insert ref.id name }

structure Plan where
  calls : List Call := []
  named : Option (String × Value) := none

def plan (session : Session) (line : Nat) : Op → Except Fault Plan
  | .newContainer kind name =>
    let made := .shared (.container session.created)
    .ok ⟨[.newContainer kind, .register made], some (name, made)⟩
  | .newBuffer name size =>
    let made := .shared (.buffer session.created)
    .ok ⟨[.newBuffer size, .register made], some (name, made)⟩
  | .int name value => .ok ⟨[], some (name, .scalar (.integer value))⟩
  | .bytes name text => .ok ⟨[], some (name, .scalar (.bytes (encodeText text)))⟩
  | .push name count => do
    let item ← session.lookup line name
    return ⟨[.addHolds item count], none⟩
  | .pop name => do
    let item ← session.lookup line name
    return ⟨[.removeHold item], none⟩
  | .append owner child => do
    let (id, _) ← session.container line owner .list
    let item ← session.lookup line child
    return ⟨(Call.push id item).paid (.flag true), none⟩
  | .set owner index child => do
    let (id, container) ← session.container line owner .list
    let item ← session.lookup line child
    match container.get? index with
    | none => .error (.failed line (.indexOutOfRange owner index))
    | some old => return ⟨(Call.set id index item).paid (.value (some old)), none⟩
  | .put owner key child => do
    let (id, container) ← session.container line owner .map
    let item ← session.lookup line child
    let key := encodeText key
    return ⟨(Call.insert id key item).paid (.replaced (container.lookup? key)), none⟩
  | .remove owner index => do
    let (id, container) ← session.container line owner .list
    match container.get? index with
    | none => .error (.failed line (.indexOutOfRange owner index))
    | some old => return ⟨(Call.remove id index).paid (.value (some old)), none⟩
  | .delete owner key => do
    let (id, container) ← session.container line owner .map
    match container.lookup? (encodeText key) with
    | none => .error (.failed line (.missingKey owner key))
    | some old => return ⟨(Call.removeKey id (encodeText key)).paid (.value (some old)), none⟩
  | .clear owner => do
    let (id, container) ← session.container line owner .container
    return ⟨(Call.clear id).paid (.values container.children), none⟩
  | .settle => .ok ⟨[.settle], none⟩

def tell (session : Session) (line : Nat) (calls : List Call) : Except Fault Session :=
  ((session.world.performAll calls).mapError (·.fault line)).map session.resume

variable {session : Session} {line : Nat} {call : Call} {rest : List Call} {answer : Answer}
  {id : Ident} {item : Value} {heap : Heap}

theorem perform_eq_answer {world : World} (held : ∀ value ∈ call.values, world.heap.holds value) :
    world.perform call = world.answer call := by
  unfold World.perform
  rw [if_pos (List.all_eq_true.mpr held)]

theorem tell_change (performed : session.world.perform call = ({ session.world with heap }, .ok answer)) :
    session.tell line (call :: rest) = tell { session with heap } line rest := by
  unfold tell
  rw [World.performAll_cons performed]
  rfl

theorem bind_tell_nil {result : Except Fault Session} :
    (result >>= fun next => next.tell line []) = result := by
  cases result <;> rfl

theorem tell_count (change : Counter → Except Failure Counter)
    (held : ∀ value ∈ call.values, session.heap.holds value)
    (answered : session.world.answer call = session.world.count (change session.counter)) :
    session.tell line (call :: rest) = session.count line change >>= (·.tell line rest) := by
  have performed := (perform_eq_answer held).trans answered
  cases changed : change session.counter with
  | ok counter =>
    rw [changed] at performed
    unfold tell count
    rw [World.performAll_cons performed, changed]
    rfl
  | error failure =>
    rw [changed] at performed
    rw [tell, World.performAll, performed, count, changed]
    cases failure <;> rfl

theorem addHolds_eq_tell {count : Nat} (held : session.heap.holds item) :
    session.count line (·.addHolds item count) = session.tell line [.addHolds item count] := by
  rw [tell_count (·.addHolds item count) (by simpa [Call.values] using held) rfl]
  exact bind_tell_nil.symm

theorem removeHold_eq_tell (held : session.heap.holds item) :
    session.count line (·.removeHold item) = session.tell line [.removeHold item] := by
  rw [tell_count (·.removeHold item) (by simpa [Call.values] using held) rfl]
  exact bind_tell_nil.symm

theorem tell_gain (held : session.heap.holds item)
    (ownerHeld : session.heap.holds (.shared (.container id))) :
    session.tell line (.addEdge item (.shared (.container id)) :: rest) =
      session.gain line id item >>= (·.tell line rest) :=
  tell_count (·.addEdge item (.shared (.container id))) (by simp [Call.values, held, ownerHeld]) rfl

theorem gain_eq_tell (held : session.heap.holds item)
    (ownerHeld : session.heap.holds (.shared (.container id))) :
    session.gain line id item = session.tell line [.addEdge item (.shared (.container id))] := by
  rw [tell_gain held ownerHeld]
  exact bind_tell_nil.symm

theorem tell_lose (held : session.heap.holds item)
    (ownerHeld : session.heap.holds (.shared (.container id))) :
    session.tell line (.removeEdge item (.shared (.container id)) :: rest) =
      session.lose line id item >>= (·.tell line rest) :=
  tell_count (·.removeEdge item (.shared (.container id))) (by simp [Call.values, held, ownerHeld]) rfl

theorem tell_made (call : Call) (ref : Ident → Ref) (heap : Heap) (unnamed : call.values = [])
    (answered : session.world.answer call = session.world.make ref heap)
    (made : heap.holds (.shared (ref session.created))) :
    session.tell line [call, .register (.shared (ref session.created))] =
      .ok { session with
        heap
        counter := session.counter.register (.shared (ref session.created))
        created := session.created + 1 } := by
  have first : session.world.perform call = session.world.make ref heap :=
    (perform_eq_answer fun value member => nomatch unnamed ▸ member).trans answered
  have held : ∀ value ∈ (Call.register (.shared (ref session.created))).values,
      heap.holds value := fun value member => List.mem_singleton.mp member ▸ made
  rw [tell, World.performAll_cons first, World.performAll_cons (perform_eq_answer held)]
  rfl

theorem heap_count {next : Session} {change : Counter → Except Failure Counter}
    (counted : session.count line change = .ok next) : next.heap = session.heap := by
  unfold count at counted
  split at counted <;> cases counted
  rfl

theorem tell_loseAll {children : List Value} (held : ∀ child ∈ children, session.heap.holds child)
    (ownerHeld : session.heap.holds (.shared (.container id))) :
    session.tell line (children.map (.removeEdge · (.shared (.container id)))) =
      session.loseAll line id children := by
  induction children generalizing session with
  | nil => rfl
  | cons child rest ih =>
    obtain ⟨first, later⟩ := List.forall_mem_cons.mp held
    rw [List.map_cons, tell_lose first ownerHeld, loseAll]
    cases lost : session.lose line id child with
    | error fault => rfl
    | ok next =>
      have same := heap_count lost
      exact ih (same.symm ▸ later) (same.symm ▸ ownerHeld)

theorem lose_eq_loseAll : session.lose line id item = session.loseAll line id [item] := by
  unfold loseAll
  cases session.lose line id item <;> rfl

theorem tell_gain_loseAll {children : List Value} (held : session.heap.holds item)
    (ownerHeld : session.heap.holds (.shared (.container id)))
    (childrenHeld : ∀ child ∈ children, session.heap.holds child) :
    session.tell line (.addEdge item (.shared (.container id)) ::
      children.map (.removeEdge · (.shared (.container id)))) =
        session.gain line id item >>= (·.loseAll line id children) := by
  rw [tell_gain held ownerHeld]
  cases gained : session.gain line id item with
  | error fault => rfl
  | ok next =>
    have same := heap_count gained
    exact tell_loseAll (same.symm ▸ childrenHeld) (same.symm ▸ ownerHeld)

end Session

end Reclaim
