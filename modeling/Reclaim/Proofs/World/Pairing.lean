import Reclaim.Proofs.Collect.Cache
import Reclaim.World

/-! Paired runs: a host tells the counter of every child that a container gains or loses, and owes
nothing when it settles. Between the change of a container and the calls that pay for it, and
between these calls, anything else may be done. -/

set_option autoImplicit false

namespace Reclaim

namespace Call

/-- What a host owes the counter for a call that was answered in this way. -/
def dues : Call → Answer → List Due
  | .push id item, .flag true => [.gain item (.shared (.container id))]
  | .set id _ item, .value (some old) =>
    [.gain item (.shared (.container id)), .loss old (.shared (.container id))]
  | .remove id _, .value (some old) | .removeKey id _, .value (some old) =>
    [.loss old (.shared (.container id))]
  | .insert id _ item, .replaced old =>
    .gain item (.shared (.container id)) :: old.toList.map (.loss · (.shared (.container id)))
  | .clear id, .values children => children.map (.loss · (.shared (.container id)))
  | _, _ => []

/-- Edges are told of as far as they are owed, and nothing is owed at a settle. -/
def Allowed (owed : List Due) : Call → Prop
  | .addEdge item owner => .gain item owner ∈ owed
  | .removeEdge item owner => .loss item owner ∈ owed
  | .settle => owed = []
  | _ => True

instance decidableAllowed (owed : List Due) : (call : Call) → Decidable (call.Allowed owed)
  | .addEdge item owner => inferInstanceAs (Decidable (.gain item owner ∈ owed))
  | .removeEdge item owner => inferInstanceAs (Decidable (.loss item owner ∈ owed))
  | .settle => inferInstanceAs (Decidable (owed = []))
  | .newContainer _ | .newBuffer _ | .rentBuffer _ | .register _ | .addHolds _ _ | .removeHold _
  | .check | .listen _ | .push _ _ | .get _ _ | .set _ _ _ | .remove _ _ | .lookup _ _
  | .insert _ _ _ | .removeKey _ _ | .clear _ | .modify _ _ => .isTrue trivial

/-- A function says how a buffer changes, so calls cannot be compared in general. -/
instance decidableSettle : (call : Call) → Decidable (call = .settle)
  | .settle => .isTrue rfl
  | .newContainer _ | .newBuffer _ | .rentBuffer _ | .register _ | .addHolds _ _ | .removeHold _
  | .addEdge _ _ | .removeEdge _ _ | .check | .listen _ | .push _ _ | .get _ _ | .set _ _ _
  | .remove _ _ | .lookup _ _ | .insert _ _ _ | .removeKey _ _ | .clear _ | .modify _ _ =>
    .isFalse nofun

def counted : Call → Bool
  | .register _ | .addHolds _ _ | .removeHold _ | .addEdge _ _ | .removeEdge _ _ | .settle => true
  | _ => false

def owedAfter (owed : List Due) (call : Call) (answer : Answer) : List Due :=
  match call with
  | .addEdge item owner => owed.erase (.gain item owner)
  | .removeEdge item owner => owed.erase (.loss item owner)
  | _ => call.dues answer ++ owed

end Call

/-- One call of a run; `owed` is what is owed after it. -/
structure Turn where
  call : Call
  before : World
  after : World
  result : Except CallError Answer
  owed : List Due

namespace World

def play (world : World) (owed : List Due) : List Call → List Turn
  | [] => []
  | call :: rest =>
    match world.perform call with
    | (after, .ok answer) =>
      let owed := call.owedAfter owed answer
      ⟨call, world, after, .ok answer, owed⟩ :: after.play owed rest
    | (after, .error error) => [⟨call, world, after, .error error, owed⟩]

def Paired (world : World) (owed : List Due) : List Call → Prop
  | [] => True
  | call :: rest => call.Allowed owed ∧
    ∀ after answer, world.perform call = (after, .ok answer) →
      after.Paired (call.owedAfter owed answer) rest

instance decidablePaired (world : World) (owed : List Due) :
    (calls : List Call) → Decidable (world.Paired owed calls)
  | [] => .isTrue trivial
  | call :: rest =>
    match performed : world.perform call with
    | (after, .ok answer) =>
      have := decidablePaired after (call.owedAfter owed answer) rest
      decidable_of_iff (call.Allowed owed ∧ after.Paired (call.owedAfter owed answer) rest) <|
        and_congr_right fun _ => ⟨fun later _ _ same => by cases performed.symm.trans same; exact later,
          fun later => later after answer performed⟩
    | (_, .error _) =>
      decidable_of_iff (call.Allowed owed) <|
        ⟨fun allowed => ⟨allowed, fun _ _ same => by cases performed.symm.trans same⟩, And.left⟩

/-- Two arrays that contain each other are held, settled and let go. -/
def cycleCalls : List Call :=
  let first : Value := .shared (.container 0)
  let second : Value := .shared (.container 1)
  [.newContainer (.list .array), .newContainer (.list .array), .register first, .register second,
    .addHolds first 1, .push 0 second, .addEdge second first, .push 1 first, .addEdge first second,
    .settle, .removeHold first, .settle]

variable {world after : World} {owed : List Due} {call : Call} {calls : List Call} {answer : Answer}

theorem counter_of_silent (silent : call.counted = false) :
    (world.perform call).1.counter = world.counter := by
  unfold perform
  split
  next =>
    cases call with
    | register _ | addHolds _ _ | removeHold _ | addEdge _ _ | removeEdge _ _ | settle => cases silent
    | newContainer _ | check | listen _ | get _ _ | lookup _ _ | clear _ | modify _ _ => rfl
    | newBuffer _ | rentBuffer _ | push _ _ | insert _ _ _ =>
      simp only [answer]
      split <;> rfl
    | set _ _ _ | remove _ _ | removeKey _ _ =>
      simp only [answer, exchange]
      split <;> rfl
  next => rfl

/-- What every allowed call keeps that succeeds holds before and after every call of a paired run. -/
theorem Paired.invariant (Keeps : World → List Due → Prop) (Good : Call → Prop)
    (step : ∀ world owed call after answer, Keeps world owed → call.Allowed owed → Good call →
      world.perform call = (after, .ok answer) → Keeps after (call.owedAfter owed answer))
    (paired : world.Paired owed calls) (start : Keeps world owed) (good : ∀ call ∈ calls, Good call)
    (turn : Turn) (made : turn ∈ world.play owed calls) :
    (∃ before, Keeps turn.before before ∧ turn.call.Allowed before) ∧
      turn.before.perform turn.call = (turn.after, turn.result) ∧
      (∀ answer, turn.result = .ok answer → Keeps turn.after turn.owed) := by
  induction calls generalizing world owed with
  | nil => cases made
  | cons call rest ih =>
    obtain ⟨allowed, later⟩ := paired
    obtain ⟨fine, good⟩ := List.forall_mem_cons.mp good
    unfold play at made
    split at made
    next after answer performed =>
      have kept := step world owed call after answer start allowed fine performed
      rcases List.mem_cons.mp made with rfl | made
      · exact ⟨⟨owed, start, allowed⟩, performed, fun _ _ => kept⟩
      · exact ih (later after answer performed) kept good made
    next after error performed =>
      rw [List.mem_singleton] at made
      subst made
      exact ⟨⟨owed, start, allowed⟩, performed, fun answer failed => nomatch failed⟩

end World

end Reclaim
