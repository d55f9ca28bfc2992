import Reclaim.Proofs.Replay.Conservation

/-! The errors of the ledger that a replay can end with. A script can let go of a value that it does not
hold, and of scalars more often than it has held them. The other errors say that the ledger and the heap
disagree, and no script makes them do so. -/

set_option autoImplicit false

namespace Reclaim

def Fault.Unrefused (fault : Fault) : Prop :=
  ∀ line error, fault ≠ .failed line (.ledger error)

namespace Machine

variable {machine : Machine} {budget : Budget} {step : ScriptLine} {line : Nat} {error : LedgerError}

section Faults

theorem unrefused_lookup (name : String) : FailsOnly Fault.Unrefused (machine.lookup line name) := by
  unfold lookup
  split
  · exact .ok
  · exact .error fun _ _ => nofun

theorem unrefused_container (name : String) (expected : Expected) :
    FailsOnly Fault.Unrefused (machine.container line name expected) := by
  apply (unrefused_lookup name).bind
  intro value
  simp only
  split
  · exact .error fun _ _ => nofun
  · split
    · exact .ok
    · exact .error fun _ _ => nofun

theorem unrefused_settle : FailsOnly Fault.Unrefused (machine.settle budget line) := by
  apply FailsOnly.map
  cases (machine.without machine.dead).check budget with
  | ok => exact .ok
  | error exceeded => exact .error fun _ _ => nofun

theorem unrefused_step (keeps : ∀ name, step.op ≠ .pop name) :
    FailsOnly Fault.Unrefused (machine.step budget step) := by
  obtain ⟨line, op⟩ := step
  cases op with
  | settle => exact unrefused_settle
  | newContainer | newBuffer | int | bytes => exact .ok
  | pop name => exact absurd rfl (keeps name)
  | push name count =>
    apply FailsOnly.map
    exact (unrefused_lookup name).bind fun item => .ok
  | append owner child =>
    apply FailsOnly.map
    apply (unrefused_container owner .list).bind
    intro found
    exact (unrefused_lookup child).bind fun item => .ok
  | set owner index child =>
    apply FailsOnly.map
    apply (unrefused_container owner .list).bind
    intro found
    apply (unrefused_lookup child).bind
    intro item
    split
    · exact .error fun _ _ => nofun
    · exact .ok
  | put owner key child =>
    apply FailsOnly.map
    apply (unrefused_container owner .map).bind
    intro found
    exact (unrefused_lookup child).bind fun item => .ok
  | remove owner index =>
    apply FailsOnly.map
    apply (unrefused_container owner .list).bind
    intro found
    simp only
    split
    · exact .error fun _ _ => nofun
    · exact .ok
  | delete owner key =>
    apply FailsOnly.map
    apply (unrefused_container owner .map).bind
    intro found
    simp only
    split
    · exact .error fun _ _ => nofun
    · exact .ok
  | clear owner =>
    apply FailsOnly.map
    exact (unrefused_container owner .container).bind fun found => .ok

end Faults

/-- On a plain heap there is one error of the ledger: a value is let go that is not held. -/
theorem step_refused (refused : machine.step budget step = .error (.failed line (.ledger error))) :
    step.number = line ∧ ∃ name ref, step.op = .pop name ∧
      machine.bindings[name]? = some (.shared ref) ∧ machine.held ref.id = 0 ∧
        error = .holdUnderflow ref.id := by
  -- Every other line can only miss a name, a kind, a place or the budget.
  by_cases pops : ∃ name, step.op = .pop name
  · obtain ⟨name, pops⟩ := pops
    have refused : machine.pop step.number name = .error (.failed line (.ledger error)) := by
      rw [Machine.step, pops] at refused
      exact error_of_map refused
    obtain missing | ⟨item, found, refused⟩ := bind_eq_error_iff.mp refused
    · exact absurd rfl (unrefused_lookup name _ missing line error)
    · unfold removeHold at refused
      split at refused
      next => cases refused
      next ref =>
        split at refused <;> cases refused
        exact ⟨rfl, name, ref, pops, lookup_ok found, ‹_›, rfl⟩
  · rw [not_exists] at pops
    exact absurd rfl (unrefused_step pops _ refused line error)

end Machine

namespace Session

variable {session next : Session} {script rest : List ScriptLine} {step : ScriptLine} {line : Nat}
  {name : String} {ref : Ref} {error : LedgerError} {fault : Fault}

theorem Tracks.settle_refused (tracks : session.Tracks)
    (refused : (session.settle step.number).outcome = .error (.failed line (.ledger error))) :
    step.number = line ∧ error = .totalUnderflow ∧ session.plain.scalars < 0 := by
  cases result : (session.counter.settle session.heap).result with
  | ok count =>
    rw [tracks.settle_of_ok result] at refused
    have refused := error_of_map refused
    cases checked : session.budget.check (session.counter.settle session.heap).counter.ledger <;>
      rw [checked] at refused <;> cases refused
  | error reason =>
    have same := (Session.settle_refused result).symm.trans refused
    cases same
    refine ⟨rfl, tracks.counter.settle_error result, Int.lt_of_not_ge fun solvent => ?_⟩
    obtain ⟨count, settled⟩ := tracks.counter.exists_settle (tracks.childTotal_le solvent)
    cases result.symm.trans settled

/-- A line that the ledger refuses lets go of a value that is not held, or it finds the total used up
because scalars have been let go more often than held. -/
theorem Tracks.step_refused (tracks : session.Tracks)
    (refused : (session.step step).outcome = .error (.failed line (.ledger error))) :
    step.number = line ∧
      ((∃ name ref, step.op = .pop name ∧ session.bindings[name]? = some (.shared ref) ∧
        session.book.heldBy ref.id = 0 ∧ error = .holdUnderflow ref.id) ∨
      error = .totalUnderflow ∧
        session.plain.scalars + step.op.holdsGained session.bindings (!·.isShared) < 0) := by
  by_cases busy : step.op = .settle
  · have idle : step.op.holdsGained session.bindings (!·.isShared) = 0 := by
      rw [busy]
      rfl
    rw [Session.step, busy] at refused
    obtain ⟨number, underflow, overdrawn⟩ := tracks.settle_refused refused
    exact ⟨number, .inr ⟨underflow, by omega⟩⟩
  · obtain ⟨machine, result, stepped, outcome, mirrors⟩ := tracks.mirrors_step session.budget busy
    rw [outcome] at refused
    have failed := error_of_map refused
    subst failed
    cases mirrors with
    | failed =>
      obtain ⟨number, name, ref, pops, named, unheld, same⟩ := Machine.step_refused stepped
      rw [held_plain] at unheld
      exact ⟨number, .inl ⟨name, ref, pops, named, unheld, same⟩⟩
    | unfit _ overdraws =>
      obtain ⟨abort, aborted⟩ | ⟨underflow, overdrawn⟩ := overdraws
      · cases aborted
      -- The plain heap has taken the line, so that the scalars it counts are those after the line.
      · cases underflow
        rw [(Machine.does_step busy stepped).scalars_eq] at overdrawn
        exact ⟨rfl, .inr ⟨rfl, overdrawn⟩⟩

theorem Tracks.step_unheld (tracks : session.Tracks) (named : session.bindings[name]? = some (.shared ref))
    (unheld : session.book.heldBy ref.id = 0) : (session.step ⟨line, .pop name⟩).outcome =
      .error (.failed line (.ledger (.holdUnderflow ref.id))) := by
  have mirrors : Mirrors line _ (session.plain.pop line name) (session.pop line name) := tracks.mirrors_pop
  have found : session.plain.bindings[name]? = some (.shared ref) := named
  have failed : session.plain.pop line name = .error (.failed line (.ledger (.holdUnderflow ref.id))) := by
    simp [Machine.pop, Machine.lookup, found, Bind.bind, Except.bind, Machine.removeHold, held_plain, unheld]
  rw [failed] at mirrors
  cases popped : session.pop line name with
  | ok next =>
    rw [popped] at mirrors
    cases mirrors
  | error fault =>
    rw [popped] at mirrors
    cases mirrors
    exact congrArg (fun result => (quiet result).outcome) popped

theorem run_cons_eq_error_iff : session.run (step :: rest) = .error fault ↔
    (session.step step).outcome = .error fault ∨
      ∃ next report, (session.step step).outcome = .ok (next, report) ∧ next.run rest = .error fault := by
  rw [run, bind_eq_error_iff]
  apply or_congr_right
  constructor
  · rintro ⟨⟨next, report⟩, stepped, failed⟩
    obtain failed | ⟨_, _, never⟩ := bind_eq_error_iff.mp failed
    · exact ⟨next, report, stepped, failed⟩
    · cases never
  · rintro ⟨next, report, stepped, failed⟩
    exact ⟨(next, report), stepped, bind_eq_error_iff.mpr (.inl failed)⟩

theorem run_stopped (advanced : session.advance script = .ok next)
    (stopped : (next.step step).outcome = .error fault) :
    session.run (script ++ step :: rest) = .error fault := by
  induction script generalizing session with
  | nil =>
    cases advanced
    exact run_cons_eq_error_iff.mpr (.inl stopped)
  | cons first before ih =>
    obtain ⟨middle, report, done, later⟩ := advance_cons advanced
    exact run_cons_eq_error_iff.mpr (.inr ⟨middle, report, done, ih later⟩)

theorem stops_of_run (failed : session.run script = .error fault) :
    ∃ before step after next, script = before ++ step :: after ∧ session.advance before = .ok next ∧
      (next.step step).outcome = .error fault := by
  induction script generalizing session with
  | nil => cases failed
  | cons step rest ih =>
    obtain stopped | ⟨middle, report, done, later⟩ := run_cons_eq_error_iff.mp failed
    · exact ⟨[], step, rest, session, rfl, rfl, stopped⟩
    · obtain ⟨before, last, after, next, rfl, advanced, stopped⟩ := ih later
      refine ⟨step :: before, last, after, next, rfl, ?_, stopped⟩
      rw [advance, done]
      exact advanced

theorem netHolds_append {counted : Value → Bool} (advanced : session.advance script = .ok next) :
    session.netHolds counted (script ++ rest) =
      session.netHolds counted script + next.netHolds counted rest := by
  induction script generalizing session with
  | nil =>
    cases advanced
    exact (Int.zero_add _).symm
  | cons step before ih =>
    obtain ⟨middle, report, done, later⟩ := advance_cons advanced
    rw [List.cons_append, netHolds_cons done, netHolds_cons done, ih later, Int.add_assoc]

theorem netHolds_singleton {counted : Value → Bool} :
    session.netHolds counted [step] = step.op.holdsGained session.bindings counted := by
  rw [netHolds]
  cases (session.step step).outcome <;> exact Int.add_zero _

theorem Tracks.run_refused (tracks : session.Tracks)
    (refused : session.run script = .error (.failed line (.ledger error))) :
    ∃ before step after next, script = before ++ step :: after ∧ step.number = line ∧
      session.advance before = .ok next ∧ next.Tracks ∧
      ((∃ name ref, step.op = .pop name ∧ next.bindings[name]? = some (.shared ref) ∧
        next.book.heldBy ref.id = 0 ∧ error = .holdUnderflow ref.id) ∨
      error = .totalUnderflow ∧
        session.plain.scalars + session.netHolds (!·.isShared) (before ++ [step]) < 0) := by
  obtain ⟨before, step, after, next, same, advanced, failed⟩ := stops_of_run refused
  obtain ⟨kept, _, _, scalars⟩ := tracks.advance advanced
  obtain ⟨number, cases⟩ := kept.step_refused failed
  refine ⟨before, step, after, next, same, number, advanced, kept, cases.imp_right ?_⟩
  rintro ⟨underflow, overdrawn⟩
  rw [netHolds_append advanced, netHolds_singleton, ← Int.add_assoc, ← scalars]
  exact ⟨underflow, overdrawn⟩

/-- The holds that are counted on a named value are those that the lines have added on it. -/
theorem heldBy_advance {settings : Settings} (advanced : settings.session.advance script = .ok next)
    (named : next.bindings[name]? = some (.shared ref)) :
    (next.book.heldBy ref.id : Int) = settings.session.netHolds (· = .shared ref) script := by
  have start := tracks_session settings
  obtain ⟨tracks, _, holds, _⟩ := start.advance advanced
  have unheld : settings.session.book.heldBy ref.id = 0 := rfl
  rw [holds, unheld, start.netHolds_eq advanced (tracks.bound name _ named), Int.natCast_zero,
    Int.zero_add]

end Session

/-- The ledger refuses a line of a script for two reasons. A line lets go of a value on which the lines
before have added no more holds than they have taken off, and whenever the first line to fail does so the
replay ends with that error. Or the total is used up, and by then the lines have let go of scalars more
often than they have held them. -/
theorem Settings.ledger_refuses_only_overdrafts (settings : Settings) (script : List ScriptLine) :
    (∀ line id, settings.session.run script = .error (.failed line (.ledger (.holdUnderflow id))) ↔
      ∃ before name after next ref, script = before ++ ⟨line, .pop name⟩ :: after ∧
        settings.session.advance before = .ok next ∧ next.bindings[name]? = some (.shared ref) ∧
        ref.id = id ∧ settings.session.netHolds (· = .shared ref) before = 0) ∧
    (∀ line error, settings.session.run script = .error (.failed line (.ledger error)) →
      (∃ id, error = .holdUnderflow id) ∨ error = .totalUnderflow ∧
        ∃ before step after, script = before ++ step :: after ∧ step.number = line ∧
          (settings.session.advance before).isOk ∧
          settings.session.netHolds (!·.isShared) (before ++ [step]) < 0) := by
  have start := Session.tracks_session settings
  -- No scalar is held at first, so that the balance of scalar holds is that of the lines.
  have scalars : settings.session.plain.scalars = 0 := by rw [Session.plain_session]
  refine ⟨fun line id => ⟨fun refused => ?_, ?_⟩, fun line error refused => ?_⟩
  · obtain ⟨before, ⟨number, op⟩, after, next, same, rfl, advanced, _, unheld | underflow⟩ :=
      start.run_refused refused
    · obtain ⟨name, ref, rfl, named, unheld, found⟩ := unheld
      cases found
      exact ⟨before, name, after, next, ref, same, advanced, named, rfl,
        (Session.heldBy_advance advanced named).symm.trans (congrArg Nat.cast unheld)⟩
    · cases underflow.1
  · rintro ⟨before, name, after, next, ref, rfl, advanced, named, rfl, balance⟩
    have unheld := (Session.heldBy_advance advanced named).trans balance
    have tracks := (start.advance advanced).1
    exact Session.run_stopped advanced (tracks.step_unheld named (Int.natCast_eq_zero.mp unheld))
  · obtain ⟨before, step, after, next, same, number, advanced, _, unheld | underflow⟩ :=
      start.run_refused refused
    · obtain ⟨_, ref, _, _, _, found⟩ := unheld
      exact .inl ⟨ref.id, found⟩
    · obtain ⟨found, overdrawn⟩ := underflow
      rw [scalars, Int.zero_add] at overdrawn
      exact .inr ⟨found, before, step, after, same, number, by rw [advanced]; rfl, overdrawn⟩

def letGoTwice : List ScriptLine :=
  [⟨1, .newContainer (.list .array) "a"⟩, ⟨2, .push "a" 1⟩, ⟨3, .pop "a"⟩, ⟨4, .pop "a"⟩]

/-- A scalar is let go that was never held, and it uses up what the place in the array that nothing holds
has added to the total. -/
def scalarLetGo : List ScriptLine :=
  [⟨1, .newContainer (.list .array) "a"⟩, ⟨2, .int "x" 7⟩, ⟨3, .append "a" "x"⟩, ⟨4, .pop "x"⟩,
    ⟨5, .settle⟩]

theorem Settings.ledger_refuses_only_overdrafts_twice :
    (({} : Settings).session.run letGoTwice = .error (.failed 4 (.ledger (.holdUnderflow 0))) ∧
      ∃ before name after next ref, letGoTwice = before ++ ⟨4, .pop name⟩ :: after ∧
        ({} : Settings).session.advance before = .ok next ∧
        next.bindings[name]? = some (.shared ref) ∧ ref.id = 0 ∧
        ({} : Settings).session.netHolds (· = .shared ref) before = 0) ∧
    ({} : Settings).session.run scalarLetGo = .error (.failed 5 (.ledger .totalUnderflow)) ∧
      ∃ before step after, scalarLetGo = before ++ step :: after ∧ step.number = 5 ∧
        (({} : Settings).session.advance before).isOk ∧
        ({} : Settings).session.netHolds (!·.isShared) (before ++ [step]) < 0 := by
  have unheld : ({} : Settings).session.run letGoTwice =
      .error (.failed 4 (.ledger (.holdUnderflow 0))) := by decide +kernel
  have overdrawn : ({} : Settings).session.run scalarLetGo =
      .error (.failed 5 (.ledger .totalUnderflow)) := by decide +kernel
  have refuses := ledger_refuses_only_overdrafts {}
  refine ⟨⟨unheld, ((refuses letGoTwice).1 4 0).mp unheld⟩, overdrawn, ?_⟩
  obtain ⟨id, same⟩ | ⟨_, uses⟩ := (refuses scalarLetGo).2 5 _ overdrawn
  · cases same
  · exact uses

end Reclaim
