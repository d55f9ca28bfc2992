import Reclaim.Proofs.Plain.Lines
import Reclaim.Proofs.Plain.Settling

/-! References are conserved. After any number of lines the counter counts what can be counted again:
the edges from the contents of the heap, and the holds from the lines themselves. -/

set_option autoImplicit false

namespace Reclaim

/-- The holds that a line adds on the values of a kind, or takes off them. -/
def Op.holdsGained (bindings : Std.ExtTreeMap String Value compare) (counted : Value → Bool) : Op → Int
  | .push name count => if bindings[name]?.any counted then count else 0
  | .pop name => if bindings[name]?.any counted then -1 else 0
  | _ => 0

namespace Machine

variable {machine next : Machine} {id other : Ident} {item : Value} {name : String} {line : Nat}

theorem held_modify {change : Cell → Cell} : (machine.modify id change).held other =
    if other = id then ((machine.cells id).map fun cell => (change cell).held).getD 0
    else machine.held other := by
  unfold held modify
  simp only
  split
  · rw [Option.map_map]
    rfl
  · rfl

theorem held_setContent {container : Container} :
    (machine.setContent id container).held other = machine.held other := by
  rw [setContent, held_modify]
  split
  next here => rw [here, held]
  next => rfl

theorem held_create {ref : Ident → Ref} {content : Option Container}
    (fresh : machine.cells machine.created = none) :
    (machine.create ref name content).held id = machine.held id := by
  unfold held create
  simp only
  split
  next here => simp [here, fresh]
  next => rfl

theorem held_addHolds {count : Nat} {ref : Ref} (present : (machine.cells ref.id).isSome) :
    (machine.addHolds count (.shared ref)).held id =
      machine.held id + if id = ref.id then count else 0 := by
  obtain ⟨cell, found⟩ := Option.isSome_iff_exists.mp present
  rw [addHolds, held_modify]
  split
  next here => simp [here, held, found]
  next => rfl

theorem held_removeHold {ref : Ref} (removed : machine.removeHold line (.shared ref) = .ok next) :
    machine.held id = next.held id + if id = ref.id then 1 else 0 := by
  simp only [removeHold] at removed
  split at removed
  next => cases removed
  next unheld =>
    cases removed
    rw [held_modify]
    split
    next here =>
      subst here
      unfold held at unheld ⊢
      cases found : machine.cells ref.id with
      | none => simp [found] at unheld
      | some cell =>
        simp only [found, Option.map_some, Option.getD_some] at unheld ⊢
        omega
    next => rfl

/-- What a line can do that is not a settle. -/
inductive Does (machine : Machine) (line : Nat) : Op → Machine → Prop where
  | create {op : Op} (ref : Ident → Ref) (name : String) (content : Option Container)
      (idle : ∀ bindings counted, op.holdsGained bindings counted = 0) :
      machine.Does line op (machine.create ref name content)
  | bind {op : Op} (name : String) (atom : Scalar)
      (idle : ∀ bindings counted, op.holdsGained bindings counted = 0) :
      machine.Does line op (machine.bind name (.scalar atom))
  | push {name : String} {count : Nat} {item : Value} (named : machine.bindings[name]? = some item) :
      machine.Does line (.push name count) (machine.addHolds count item)
  | pop {name : String} {item : Value} {next : Machine} (named : machine.bindings[name]? = some item)
      (removed : machine.removeHold line item = .ok next) : machine.Does line (.pop name) next
  | change {op : Op} (id : Ident) (container : Container)
      (idle : ∀ bindings counted, op.holdsGained bindings counted = 0) :
      machine.Does line op (machine.setContent id container)

theorem lookup_ok (found : machine.lookup line name = .ok item) : machine.bindings[name]? = some item := by
  unfold lookup at found
  split at found <;> cases found
  assumption

theorem does_step {step : ScriptLine} {report : Option Report} {budget : Budget}
    (busy : step.op ≠ .settle) (stepped : machine.step budget step = .ok (next, report)) :
    machine.Does step.number step.op next := by
  obtain ⟨line, op⟩ := step
  have quiet : ∀ result : Except Fault Machine,
      result.map (fun next => (next, none)) = .ok (next, report) → result = .ok next := by
    intro result mapped
    obtain ⟨found, rfl, same⟩ := ok_of_map mapped
    exact congrArg Except.ok (Prod.mk.inj same).1
  cases op with
  | settle => exact absurd rfl busy
  | newContainer kind name =>
    cases quiet (.ok _) stepped
    exact .create .container name _ fun _ _ => rfl
  | newBuffer name size =>
    cases quiet (.ok _) stepped
    exact .create .buffer name none fun _ _ => rfl
  | int name value =>
    cases quiet (.ok _) stepped
    exact .bind name _ fun _ _ => rfl
  | bytes name text =>
    cases quiet (.ok _) stepped
    exact .bind name _ fun _ _ => rfl
  | push name count =>
    obtain ⟨item, found, same⟩ := ok_of_bind (quiet (machine.push line name count) stepped)
    cases same
    exact .push (lookup_ok found)
  | pop name =>
    obtain ⟨item, found, removed⟩ := ok_of_bind (quiet (machine.pop line name) stepped)
    exact .pop (lookup_ok found) removed
  | append owner child =>
    obtain ⟨pair, _, rest⟩ := ok_of_bind (quiet (machine.append line owner child) stepped)
    obtain ⟨item, _, same⟩ := ok_of_bind rest
    cases same
    exact .change _ _ fun _ _ => rfl
  | set owner index child =>
    obtain ⟨pair, _, rest⟩ := ok_of_bind (quiet (machine.set line owner index child) stepped)
    obtain ⟨item, _, same⟩ := ok_of_bind rest
    split at same <;> cases same
    exact .change _ _ fun _ _ => rfl
  | put owner key child =>
    obtain ⟨pair, _, rest⟩ := ok_of_bind (quiet (machine.put line owner key child) stepped)
    obtain ⟨item, _, same⟩ := ok_of_bind rest
    cases same
    exact .change _ _ fun _ _ => rfl
  | remove owner index =>
    obtain ⟨pair, _, same⟩ := ok_of_bind (quiet (machine.remove line owner index) stepped)
    simp only at same
    split at same <;> cases same
    exact .change _ _ fun _ _ => rfl
  | delete owner key =>
    obtain ⟨pair, _, same⟩ := ok_of_bind (quiet (machine.delete line owner key) stepped)
    simp only at same
    split at same <;> cases same
    exact .change _ _ fun _ _ => rfl
  | clear owner =>
    obtain ⟨pair, _, same⟩ := ok_of_bind (quiet (machine.clear line owner) stepped)
    cases same
    exact .change _ _ fun _ _ => rfl

theorem Does.held_eq {op : Op} (does : machine.Does line op next)
    (fresh : machine.cells machine.created = none)
    (present : ∀ (name : String) (ref : Ref), machine.bindings[name]? = some (.shared ref) →
      (machine.cells ref.id).isSome) (id : Ident) :
    (next.held id : Int) = machine.held id + op.holdsGained machine.bindings (·.id? = some id) := by
  -- What is created is new, and the names are those of cells.
  cases does with
  | create ref name content idle => rw [held_create fresh, idle, Int.add_zero]
  | bind name atom idle =>
    rw [idle, Int.add_zero]
    rfl
  | change other container idle => rw [held_setContent, idle, Int.add_zero]
  | @push name count item named =>
    cases item with
    | scalar atom =>
      have gained : (Op.push name count).holdsGained machine.bindings (·.id? = some id) = 0 := by
        simp [Op.holdsGained, named, Value.id?]
      rw [gained, Int.add_zero]
      rfl
    | shared ref =>
      rw [held_addHolds (present name ref named), Op.holdsGained, named]
      simp only [Option.any_some, Book.id?_shared, Option.some.injEq, decide_eq_true_iff, @eq_comm _ id]
      split <;> simp
  | @pop name item next named removed =>
    cases item with
    | scalar atom =>
      have gained : (Op.pop name).holdsGained machine.bindings (·.id? = some id) = 0 := by
        simp [Op.holdsGained, named, Value.id?]
      cases removed
      rw [gained, Int.add_zero]
      rfl
    | shared ref =>
      rw [held_removeHold removed, Op.holdsGained, named]
      simp only [Option.any_some, Book.id?_shared, Option.some.injEq, decide_eq_true_iff, @eq_comm _ id]
      split <;> simp

theorem Does.scalars_eq {op : Op} (does : machine.Does line op next) :
    next.scalars = machine.scalars + op.holdsGained machine.bindings (!·.isShared) := by
  cases does with
  | create ref name content idle => rw [idle, Int.add_zero]; rfl
  | bind name atom idle => rw [idle, Int.add_zero]; rfl
  | change other container idle => rw [idle, Int.add_zero]; rfl
  | @push name count item named =>
    cases item <;> simp [Op.holdsGained, named, addHolds, Value.isShared, modify]
  | @pop name item next named removed =>
    cases item with
    | scalar atom =>
      cases removed
      simp [Op.holdsGained, named, Value.isShared, Int.sub_eq_add_neg]
    | shared ref =>
      simp only [removeHold] at removed
      split at removed <;> cases removed
      simp [Op.holdsGained, named, Value.isShared, modify]

end Machine

namespace Session

variable {session next : Session} {script : List ScriptLine} {report : Option Report} {ref : Ref}

def advance (session : Session) : List ScriptLine → Except Fault Session
  | [] => .ok session
  | line :: rest => do
    let (next, _) ← (session.step line).outcome
    next.advance rest

def netHolds (session : Session) (counted : Value → Bool) : List ScriptLine → Int
  | [] => 0
  | line :: rest => line.op.holdsGained session.bindings counted +
    match (session.step line).outcome with
    | .ok (next, _) => next.netHolds counted rest
    | .error _ => 0

theorem advance_cons {line : ScriptLine} (advanced : session.advance (line :: script) = .ok next) :
    ∃ middle report, (session.step line).outcome = .ok (middle, report) ∧
      middle.advance script = .ok next := by
  obtain ⟨⟨middle, report⟩, done, rest⟩ := ok_of_bind advanced
  exact ⟨middle, report, done, rest⟩

theorem isOk_advance : (session.advance script).isOk = (session.run script).isOk := by
  induction script generalizing session with
  | nil => rfl
  | cons step rest ih =>
    rw [advance, run]
    cases (session.step step).outcome with
    | error fault => rfl
    | ok done =>
      obtain ⟨next, report⟩ := done
      change (next.advance rest).isOk =
        (next.run rest >>= fun reports => pure (report.toList ++ reports)).isOk
      rw [ih]
      cases next.run rest <;> rfl

theorem netHolds_cons {line : ScriptLine} {counted : Value → Bool}
    (done : (session.step line).outcome = .ok (next, report)) :
    session.netHolds counted (line :: script) =
      line.op.holdsGained session.bindings counted + next.netHolds counted script := by
  rw [netHolds, done]

theorem Tracks.step {step : ScriptLine} (tracks : session.Tracks)
    (done : (session.step step).outcome = .ok (next, report)) :
    next.Tracks ∧
      (∀ id, (next.book.heldBy id : Int) =
        session.book.heldBy id + step.op.holdsGained session.bindings (·.id? = some id)) ∧
      next.plain.scalars =
        session.plain.scalars + step.op.holdsGained session.bindings (!·.isShared) := by
  have sound := (tracks.next done).1
  by_cases busy : step.op = .settle
  · have idle : ∀ counted, step.op.holdsGained session.bindings counted = 0 := fun _ => by
      rw [busy]
      rfl
    rw [Session.step, busy] at done
    obtain ⟨count, result, rfl, _⟩ := settle_ok done
    obtain ⟨refs, settles⟩ := tracks.counter.settles result
    refine ⟨⟨sound, known_settled tracks settles⟩, fun id => ?_, ?_⟩
    · rw [heldBy_settled tracks settles, idle, Int.add_zero]
    · rw [← plain_settled tracks settles, idle, Int.add_zero]
      rfl
  -- The holds are counted on the plain heap that the session stands for.
  · obtain ⟨machine, result, stepped, outcome, mirrors⟩ := tracks.mirrors_step session.budget busy
    rw [outcome] at done
    obtain ⟨after, rfl, same⟩ := ok_of_map done
    obtain ⟨rfl, _⟩ := Prod.mk.inj same
    cases mirrors with
    | done same known =>
      subst same
      have does := Machine.does_step busy stepped
      refine ⟨⟨sound, known⟩, fun id => ?_, does.scalars_eq⟩
      rw [← held_plain, ← held_plain]
      apply does.held_eq
      · exact Option.map_eq_none_iff.mpr tracks.item?_created
      · intro name ref named
        rw [isSome_cells, tracks.entered name ref named]
        rfl

theorem Sound.holds_step {step : ScriptLine} {value : Value} (sound : session.Sound)
    (done : (session.step step).outcome = .ok (next, report)) (held : session.heap.holds value) :
    next.heap.holds value := by
  by_cases busy : step.op = .settle
  · rw [Session.step, busy] at done
    obtain ⟨count, result, rfl, _⟩ := settle_ok done
    obtain ⟨refs, leaves⟩ := sound.counter.leaves result
    rw [sound.holds_settled leaves]
    exact held
  · obtain ⟨_, plan, world, performs⟩ := sound.performs busy done
    obtain ⟨_, carries⟩ := performs.carries
    rw [performs.next, heap_label]
    exact World.holds_performAll carries.busy held performs.performed

theorem Tracks.advance (tracks : session.Tracks) (advanced : session.advance script = .ok next) :
    next.Tracks ∧ (∀ value, session.heap.holds value → next.heap.holds value) ∧
      (∀ id, (next.book.heldBy id : Int) =
        session.book.heldBy id + session.netHolds (·.id? = some id) script) ∧
      next.plain.scalars = session.plain.scalars + session.netHolds (!·.isShared) script := by
  -- Along the lines: each changes the holds as it says.
  induction script generalizing session with
  | nil =>
    cases advanced
    exact ⟨tracks, fun _ => id, fun _ => (Int.add_zero _).symm, (Int.add_zero _).symm⟩
  | cons step rest ih =>
    obtain ⟨middle, report, done, later⟩ := advance_cons advanced
    obtain ⟨kept, holds, scalars⟩ := tracks.step done
    obtain ⟨last, existing, laterHolds, laterScalars⟩ := ih kept later
    refine ⟨last, fun value held => existing value (tracks.holds_step done held), fun id => ?_, ?_⟩
    · rw [laterHolds, holds, netHolds_cons done, Int.add_assoc]
    · rw [laterScalars, scalars, netHolds_cons done, Int.add_assoc]

theorem Tracks.netHolds_eq (tracks : session.Tracks) (advanced : session.advance script = .ok next)
    (held : next.heap.holds (.shared ref)) : session.netHolds (·.id? = some ref.id) script =
      session.netHolds (· = .shared ref) script := by
  -- No other value ever has the identity of one that exists.
  induction script generalizing session with
  | nil => rfl
  | cons step rest ih =>
    obtain ⟨middle, report, done, later⟩ := advance_cons advanced
    obtain ⟨last, existing, _⟩ := tracks.advance advanced
    -- What a name is bound to on the way still exists at the end, where identities tell values apart.
    have alike : ∀ name : String, session.bindings[name]?.any (·.id? = some ref.id) =
        session.bindings[name]?.any (· = .shared ref) := by
      intro name
      cases named : session.bindings[name]? with
      | none => rfl
      | some value =>
        have present := existing value (tracks.bound name value named)
        simp only [Option.any_some, decide_eq_decide]
        exact last.counter.ledger.id?_iff present held
    have gained : step.op.holdsGained session.bindings (·.id? = some ref.id) =
        step.op.holdsGained session.bindings (· = .shared ref) := by
      cases step.op <;> simp only [Op.holdsGained, alike]
    rw [netHolds_cons done, netHolds_cons done, gained, ih (tracks.step done).1 later]

end Session

/-- After lines that all succeed, what is in a tracked container is tracked, the edges between tracked
values are the places in which the owner holds the other, the holds on a value are those that the
lines have added less those that they have taken off, and the total is the sum of all holds on tracked
values, all their children and the holds on scalars. -/
theorem Settings.references_conserved (settings : Settings) {script : List ScriptLine} {next : Session}
    (advanced : settings.session.advance script = .ok next) :
    (∀ owner ∈ next.counter.ledger.tracked, ∀ child, .shared child ∈ next.heap.children owner →
      child ∈ next.counter.ledger.tracked) ∧
    (∀ item ∈ next.counter.ledger.tracked, ∀ owner ∈ next.counter.ledger.tracked,
      next.counter.ledger.edges (.shared item) (.shared owner) =
        (next.heap.children owner).count (.shared item)) ∧
    (∀ ref, next.heap.holds (.shared ref) → (next.counter.ledger.held (.shared ref) : Int) =
      settings.session.netHolds (· = .shared ref) script) ∧
    (next.counter.ledger.total : Int) =
      (next.counter.ledger.tracked.map fun ref => next.counter.ledger.held (.shared ref)).sum +
        (next.counter.ledger.tracked.map next.heap.childCount).sum +
          settings.session.netHolds (!·.isShared) script := by
  have start := Session.tracks_session settings
  obtain ⟨tracks, _, holds, scalars⟩ := start.advance advanced
  refine ⟨fun owner _ child contains => ?_, fun item tracked owner ownerTracked => ?_,
    fun ref held => ?_, ?_⟩
  · exact (tracks.counter.ledger.tracked_of_contains contains).2
  · have balanced := tracks.counter.ledger.balanced item owner (tracks.present tracked)
      (tracks.present ownerTracked)
    simpa using balanced
  · have unheld : settings.session.book.heldBy ref.id = 0 := rfl
    have gained := holds ref.id
    rw [unheld, start.netHolds_eq advanced held] at gained
    rw [← tracks.counter.ledger.heldBy_eq, gained, Int.natCast_zero, Int.zero_add]
  · have none : settings.session.plain.scalars = 0 := by rw [Session.plain_session]
    rw [tracks.total_eq, scalars, none, Int.zero_add]

/-- An array contains itself, a map twice and a scalar, and each of the two a place that is taken by what
was there. The map is let go, the scalar is held twice, and both stay in the array. -/
def repeatsScript : List ScriptLine :=
  [⟨1, .newContainer (.list .array) "a"⟩, ⟨2, .newContainer .map "m"⟩, ⟨3, .int "x" 7⟩,
    ⟨4, .push "a" 2⟩, ⟨5, .push "m" 1⟩, ⟨6, .append "a" "a"⟩, ⟨7, .append "a" "m"⟩,
    ⟨8, .append "a" "m"⟩, ⟨9, .append "a" "x"⟩, ⟨10, .set "a" 0 "a"⟩, ⟨11, .put "m" "k" "a"⟩,
    ⟨12, .put "m" "k" "a"⟩, ⟨13, .push "x" 3⟩, ⟨14, .pop "x"⟩, ⟨15, .pop "m"⟩, ⟨16, .pop "a"⟩,
    ⟨17, .settle⟩]

theorem Settings.references_conserved_repeats :
    ∃ next, ({} : Settings).session.advance repeatsScript = .ok next ∧
      (next.counter.ledger.held (.shared (.container 0)) : Int) = 1 ∧
      (next.counter.ledger.total : Int) =
        (next.counter.ledger.tracked.map fun ref => next.counter.ledger.held (.shared ref)).sum +
          (next.counter.ledger.tracked.map next.heap.childCount).sum + 2 := by
  have exists_array : (({} : Settings).session.advance repeatsScript).toOption.any
      (·.heap.holds (.shared (.container 0))) = true := by decide +kernel
  cases advanced : ({} : Settings).session.advance repeatsScript with
  | error fault =>
    rw [advanced] at exists_array
    cases exists_array
  | ok next =>
    rw [advanced] at exists_array
    have present : next.heap.holds (.shared (.container 0)) := exists_array
    obtain ⟨_, _, holds, total⟩ := references_conserved {} advanced
    have array : ({} : Settings).session.netHolds (· = .shared (.container 0)) repeatsScript = 1 := by
      decide +kernel
    have scalars : ({} : Settings).session.netHolds (!·.isShared) repeatsScript = 2 := by decide +kernel
    exact ⟨next, rfl, (holds _ present).trans array, scalars ▸ total⟩

end Reclaim
