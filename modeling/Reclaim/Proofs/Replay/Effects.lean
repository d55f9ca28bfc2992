import Reclaim.Proofs.Heap.Changes
import Reclaim.Proofs.Replay.Carrying

/-! What lines do to a session that are not settles: they make a value and give it a name, bind a name to
a scalar, or change a container that a name is bound to. -/

set_option autoImplicit false

namespace Reclaim

namespace Session

variable {session next : Session} {op : Op} {line : Nat} {id : Ident}

def naming (session : Session) : Op → Option (Ref × String)
  | .newContainer _ name => some (.container session.nextIdent, name)
  | .newBuffer name _ => some (.buffer session.nextIdent, name)
  | _ => none

inductive Does (session : Session) (op : Op) : Session → Prop where
  | create {ref : Ref} {name : String} {heap : Heap} (made : session.naming op = some (ref, name))
      (change : session.heap.Change (some ref) heap) : session.Does op (session.create ref name heap)
  | bind (name : String) (atom : Scalar) (idle : session.naming op = none) :
      session.Does op (session.bind name (.scalar atom))
  | alter {touched : Option Ref} {heap : Heap} (counter : Counter) (idle : session.naming op = none)
      (change : session.heap.Change touched heap)
      (bound : ∀ ref, touched = some ref → ∃ name : String, session.bindings[name]? = some (.shared ref)) :
      session.Does op { session with heap, counter }

def Recounts (session next : Session) : Prop := ∃ counter, next = { session with counter }

theorem Recounts.trans {middle : Session} (first : session.Recounts middle)
    (second : middle.Recounts next) : session.Recounts next := by
  obtain ⟨_, rfl⟩ := first
  obtain ⟨_, rfl⟩ := second
  exact ⟨_, rfl⟩

theorem recounts_of_count {change : Counter → Except Failure Counter}
    (counted : session.count line change = .ok next) : session.Recounts next := by
  unfold count at counted
  split at counted <;> cases counted
  exact ⟨_, rfl⟩

theorem recounts_of_loseAll {children : List Value}
    (lost : session.loseAll line id children = .ok next) : session.Recounts next := by
  induction children generalizing session with
  | nil =>
    cases lost
    exact ⟨_, rfl⟩
  | cons child rest ih =>
    obtain ⟨middle, first, later⟩ := ok_of_bind lost
    exact (recounts_of_count first).trans (ih later)

namespace Does

theorem count (idle : session.naming op = none) (recounts : session.Recounts next) :
    session.Does op next := by
  obtain ⟨counter, rfl⟩ := recounts
  exact .alter counter idle .none fun _ touched => nomatch touched

theorem fill {owner : String} {expected : Expected} {old container : Container}
    (found : session.container line owner expected = .ok (id, old)) (idle : session.naming op = none)
    (recounts : (session.setContainer id container).Recounts next) : session.Does op next := by
  obtain ⟨counter, rfl⟩ := recounts
  obtain ⟨named, _⟩ := container_ok found
  refine .alter counter idle (.fill id container) fun ref touched => ⟨owner, ?_⟩
  cases touched
  exact named

end Does

section Effects

variable {ref : Ref} {name : String} (does : session.Does op next)

include does

theorem Does.made (made : session.naming op = some (ref, name)) :
    next.origins[ref.id]? = some name ∧ next.bindings[name]? = some (.shared ref) := by
  cases does with
  | create same change =>
    cases same.symm.trans made
    simp [Session.create]
  | bind other atom idle => cases idle.symm.trans made
  | alter counter idle change bound => cases idle.symm.trans made

theorem Does.origins_eq (older : ∀ ref name, session.naming op = some (ref, name) → ref.id ≠ id) :
    next.origins[id]? = session.origins[id]? := by
  cases does with
  | @create ref name heap made change =>
    simp [Session.create, Std.ExtTreeMap.getElem?_insert, older ref name made]
  | bind other atom idle => rfl
  | alter counter idle change bound => rfl

theorem Does.sameAt (older : ∀ other name, session.naming op = some (other, name) → other ≠ ref)
    (unbound : ∀ name : String, session.bindings[name]? ≠ some (.shared ref)) :
    session.heap.SameAt next.heap ref := by
  cases does with
  | create made change => exact change.sameAt fun same => older _ _ made (Option.some.inj same)
  | bind other atom idle => cases ref <;> rfl
  | alter counter idle change bound =>
    refine change.sameAt fun touched => ?_
    obtain ⟨name, named⟩ := bound ref touched
    exact unbound name named

theorem Does.released (released : (next.heap.buffer id).released = true) :
    (session.heap.buffer id).released = true := by
  cases does with
  | create made change => exact change.released released
  | bind other atom idle => exact released
  | alter counter idle change bound => exact change.released released

end Effects

theorem naming_id {ref : Ref} {name : String} (made : session.naming op = some (ref, name)) :
    ref.id = session.nextIdent := by
  cases op <;> cases made <;> rfl

theorem ok_of_quiet {result : Except Fault Session} {report : Option Report}
    (done : (quiet result).outcome = .ok (next, report)) : result = .ok next := by
  obtain ⟨found, rfl, same⟩ := ok_of_map done
  exact congrArg Except.ok (Prod.mk.inj same).1

theorem does_step {step : ScriptLine} {report : Option Report} (busy : step.op ≠ .settle)
    (done : (session.step step).outcome = .ok (next, report)) : session.Does step.op next := by
  obtain ⟨line, op⟩ := step
  cases op with
  | settle => exact absurd rfl busy
  | newContainer kind name =>
    cases ok_of_quiet done
    exact .create rfl (.fill _ _)
  | newBuffer name size =>
    obtain ⟨heap, made, rfl⟩ := ok_of_map (ok_of_quiet done)
    have made := ok_of_mapError made
    unfold Heap.newBuffer at made
    split at made <;> cases made
    exact .create rfl (.make _ _ false session.heap.pool)
  | int name value =>
    cases ok_of_quiet done
    exact .bind name _ rfl
  | bytes name text =>
    cases ok_of_quiet done
    exact .bind name _ rfl
  | push name count =>
    obtain ⟨item, _, counted⟩ := ok_of_bind (ok_of_quiet done)
    exact .count rfl (recounts_of_count counted)
  | pop name =>
    obtain ⟨item, _, counted⟩ := ok_of_bind (ok_of_quiet done)
    exact .count rfl (recounts_of_count counted)
  | append owner child =>
    obtain ⟨pair, found, rest⟩ := ok_of_bind (ok_of_quiet done)
    obtain ⟨item, _, gained⟩ := ok_of_bind rest
    exact .fill found rfl (recounts_of_count gained)
  | set owner index child =>
    obtain ⟨pair, found, rest⟩ := ok_of_bind (ok_of_quiet done)
    obtain ⟨item, _, rest⟩ := ok_of_bind rest
    split at rest
    next => cases rest
    next =>
      obtain ⟨middle, gained, lost⟩ := ok_of_bind rest
      exact .fill found rfl ((recounts_of_count gained).trans (recounts_of_count lost))
  | put owner key child =>
    obtain ⟨pair, found, rest⟩ := ok_of_bind (ok_of_quiet done)
    obtain ⟨item, _, rest⟩ := ok_of_bind rest
    obtain ⟨middle, gained, lost⟩ := ok_of_bind rest
    exact .fill found rfl ((recounts_of_count gained).trans (recounts_of_loseAll lost))
  | remove owner index =>
    obtain ⟨pair, found, rest⟩ := ok_of_bind (ok_of_quiet done)
    simp only at rest
    split at rest
    next => cases rest
    next => exact .fill found rfl (recounts_of_count rest)
  | delete owner key =>
    obtain ⟨pair, found, rest⟩ := ok_of_bind (ok_of_quiet done)
    simp only at rest
    split at rest
    next => cases rest
    next => exact .fill found rfl (recounts_of_count rest)
  | clear owner =>
    obtain ⟨pair, found, lost⟩ := ok_of_bind (ok_of_quiet done)
    exact .fill found rfl (recounts_of_loseAll lost)

end Session

end Reclaim
