import Reclaim.Proofs.Replay.Eagerness

/-! A replay under both strategies against one under either of them. Sessions that cannot be told
apart report the same at every line, so the comparison finds no difference: it prints what one replay
prints, and fails where one replay fails. -/

set_option autoImplicit false

namespace Reclaim

def settleCount (script : List ScriptLine) : Nat :=
  script.countP (·.op = .settle)

def Fault.Single : Fault → Prop
  | .failed .. | .aborted _ => True
  | .diverged .. => False

def FailsSingly {α : Type} (result : Except Fault α) : Prop := FailsOnly Fault.Single result

namespace Session

variable {session next first second : Session} {line : Nat} {script : List ScriptLine}
  {report : Option Report} {reports : List Report}

section Faults

theorem failsSingly_lookup (name : String) : FailsSingly (session.lookup line name) := by
  unfold lookup
  split
  · exact .ok
  · exact .error trivial

theorem failsSingly_container (name : String) (expected : Expected) :
    FailsSingly (session.container line name expected) := by
  apply (failsSingly_lookup name).bind
  intro value
  split
  · exact .error trivial
  · simp only
    split
    · exact .ok
    · exact .error trivial

theorem failsSingly_count (change : Counter → Except Failure Counter) :
    FailsSingly (session.count line change) := by
  unfold count
  split
  · exact .ok
  · exact .error trivial
  · exact .error trivial

theorem failsSingly_loseAll (owner : Ident) (children : List Value) :
    FailsSingly (session.loseAll line owner children) := by
  induction children generalizing session with
  | nil => exact .ok
  | cons child rest ih => exact (failsSingly_count _).bind fun next => ih

theorem failsSingly_settle : FailsSingly (session.settle line).outcome := by
  unfold settle
  simp only
  split
  · exact .error trivial
  · split
    · exact .error trivial
    · exact .ok

theorem failsSingly_step (step : ScriptLine) : FailsSingly (session.step step).outcome := by
  obtain ⟨line, op⟩ := step
  cases op with
  | settle => exact failsSingly_settle
  | newContainer kind name => exact .ok
  | int name value => exact .ok
  | bytes name text => exact .ok
  | newBuffer name size =>
    apply FailsOnly.map
    apply FailsOnly.map
    rw [Heap.newBuffer]
    split
    · exact .ok
    · exact .error trivial
  | push name count =>
    apply FailsOnly.map
    exact (failsSingly_lookup name).bind fun item => failsSingly_count _
  | pop name =>
    apply FailsOnly.map
    exact (failsSingly_lookup name).bind fun item => failsSingly_count _
  | append owner child =>
    apply FailsOnly.map
    apply (failsSingly_container owner .list).bind
    intro found
    exact (failsSingly_lookup child).bind fun item => failsSingly_count _
  | set owner index child =>
    apply FailsOnly.map
    apply (failsSingly_container owner .list).bind
    intro found
    apply (failsSingly_lookup child).bind
    intro item
    split
    · exact .error trivial
    · exact (failsSingly_count _).bind fun next => failsSingly_count _
  | put owner key child =>
    apply FailsOnly.map
    apply (failsSingly_container owner .map).bind
    intro found
    apply (failsSingly_lookup child).bind
    intro item
    exact (failsSingly_count _).bind fun next => failsSingly_loseAll _ _
  | remove owner index =>
    apply FailsOnly.map
    apply (failsSingly_container owner .list).bind
    intro found
    simp only
    split
    · exact .error trivial
    · exact failsSingly_count _
  | delete owner key =>
    apply FailsOnly.map
    apply (failsSingly_container owner .map).bind
    intro found
    simp only
    split
    · exact .error trivial
    · exact failsSingly_count _
  | clear owner =>
    apply FailsOnly.map
    exact (failsSingly_container owner .container).bind fun found => failsSingly_loseAll _ _

theorem failsSingly_run : FailsSingly (session.run script) := by
  induction script generalizing session with
  | nil => exact .ok
  | cons step rest ih =>
    apply (failsSingly_step step).bind
    intro done
    exact ih.bind fun reports => .ok

end Faults

/-- A line reports exactly if it is a settle. -/
theorem Sound.isSome_report {step : ScriptLine} (sound : session.Sound)
    (done : (session.step step).outcome = .ok (next, report)) :
    report.isSome = decide (step.op = .settle) := by
  by_cases busy : step.op = .settle
  · have settled : (session.settle step.number).outcome = .ok (next, report) := by
      rw [← done, Session.step, busy]
    obtain ⟨_, _, _, rfl⟩ := settle_ok settled
    simp [busy]
  · rw [(sound.performs busy done).1]
    simp [busy]

theorem run_cons {step : ScriptLine} (ran : session.run (step :: script) = .ok reports) :
    ∃ next report others, (session.step step).outcome = .ok (next, report) ∧
      next.run script = .ok others ∧ reports = report.toList ++ others := by
  obtain ⟨⟨next, report⟩, done, later⟩ := ok_of_bind ran
  obtain ⟨others, ranRest, same⟩ := ok_of_bind later
  exact ⟨next, report, others, done, ranRest, (Except.ok.inj same).symm⟩

theorem Sound.length_run (sound : session.Sound) (ran : session.run script = .ok reports) :
    reports.length = settleCount script := by
  induction script generalizing session reports with
  | nil =>
    cases ran
    rfl
  | cons step rest ih =>
    obtain ⟨next, report, others, done, ranRest, rfl⟩ := run_cons ran
    have here := sound.isSome_report done
    have there := ih (sound.next done).1 ranRest
    rw [List.length_append, there, settleCount, settleCount, List.countP_cons, ← here]
    cases report <;> simp [Nat.add_comm]

namespace Agrees

/-- A line has the same outcome in sessions that are equally eager, settles included. -/
theorem alike_step (agrees : first.Agrees second) (sound : first.Sound) (sound' : second.Sound)
    (eager : first.counter.eager = second.counter.eager) (step : ScriptLine) :
    Alike SameOutcome (first.step step).outcome (second.step step).outcome := by
  by_cases busy : step.op = .settle
  · rw [Session.step, Session.step, busy]
    exact agrees.settle sound sound'
      (Counter.settle_agrees sound.counter sound'.counter agrees.worlds.book agrees.heap eager)
  · exact agrees.step sound sound' busy

theorem run_eq (agrees : first.Agrees second) (sound : first.Sound) (sound' : second.Sound)
    (eager : first.counter.eager = second.counter.eager) :
    first.run script = second.run script := by
  -- Along the lines: after one that succeeds, the sessions still agree.
  induction script generalizing first second with
  | nil => rfl
  | cons step rest ih =>
    unfold Session.run
    obtain ⟨fault, failed, failed'⟩ | ⟨⟨next, report⟩, ⟨next', report'⟩, done, done', same, reports⟩ :=
      (agrees.alike_step sound sound' eager step).cases
    · rw [failed, failed']
    · obtain ⟨kept, eagerNext, _⟩ := sound.next done
      obtain ⟨kept', eagerNext', _⟩ := sound'.next done'
      obtain rfl : report = report' := reports
      have later := ih same kept kept' (eagerNext.trans (eager.trans eagerNext'.symm))
      rw [done, done']
      exact congrArg (fun result => result >>= fun reports => pure (report.toList ++ reports)) later

end Agrees

end Session

/-- The strategy cannot be told from the reports. -/
theorem ReplayOptions.reports_eq (options : ReplayOptions) (first second : Strategy)
    (script : List ScriptLine) : options.reports first script = options.reports second script := by
  have agrees : { options.toSettings with strategy := first }.session.Agrees
      { options.toSettings with strategy := second }.session :=
    ⟨⟨rfl, ⟨rfl, rfl⟩, rfl, rfl⟩, rfl, rfl⟩
  exact agrees.run_eq (Session.sound_session _) (Session.sound_session _) rfl

theorem compareReports_self (printRemoved : Bool) (first second : Strategy) (reports : List Report) :
    compareReports printRemoved first second (reports.zip reports) =
      { output := reports.map (·.summary printRemoved) } := by
  induction reports with
  | nil => rfl
  | cons report rest ih =>
    rw [List.zip_cons_cons, compareReports, if_pos rfl, ih]
    rfl

section Replays

variable {options : ReplayOptions} {script : List ScriptLine}
  {reports : List Report} {fault : Fault}

theorem replaySingle_ok (strategy : Strategy) (ran : options.reports .markSweep script = .ok reports) :
    replay { options with strategy, compare := false } script =
      { output := reports.map (·.summary options.printRemoved) } := by
  have same : ({ options with strategy, compare := false } : ReplayOptions).reports strategy script =
      .ok reports := (options.reports_eq strategy .markSweep script).trans ran
  simp only [replay, replaySingle, same, Bool.false_eq_true, if_false]

theorem replaySingle_error (strategy : Strategy)
    (failed : options.reports .markSweep script = .error fault) :
    replay { options with strategy, compare := false } script =
      { output := [], fault := some fault } := by
  have same : ({ options with strategy, compare := false } : ReplayOptions).reports strategy script =
      .error fault := (options.reports_eq strategy .markSweep script).trans failed
  simp only [replay, replaySingle, same, Bool.false_eq_true, if_false]

theorem replayBoth_ok (ran : options.reports .markSweep script = .ok reports) :
    replay { options with compare := true } script =
      { output := reports.map (·.summary options.printRemoved) ++
          [s!"{settleCount script} settles, strategies agree"] } := by
  have marking : ({ options with compare := true } : ReplayOptions).reports .markSweep script =
      .ok reports := ran
  have walking : ({ options with compare := true } : ReplayOptions).reports .incremental script =
      .ok reports := (options.reports_eq .incremental .markSweep script).trans ran
  have count := (Session.sound_session { options.toSettings with strategy := .markSweep }).length_run ran
  simp [replay, replayBoth, marking, walking, compareReports_self, count]

theorem replayBoth_error (failed : options.reports .markSweep script = .error fault) :
    replay { options with compare := true } script = { output := [], fault := some fault } := by
  have marking : ({ options with compare := true } : ReplayOptions).reports .markSweep script =
      .error fault := failed
  simp [replay, replayBoth, marking]

theorem single_of_replay (failed : (replay options script).fault = some fault) : fault.Single := by
  obtain ⟨settings, compare, printRemoved⟩ := options
  cases ran : ({ toSettings := settings, printRemoved } : ReplayOptions).reports .markSweep script with
  | ok reports =>
    cases compare with
    | false =>
      rw [show replay _ script = _ from replaySingle_ok settings.strategy ran] at failed
      cases failed
    | true =>
      rw [show replay _ script = _ from replayBoth_ok ran] at failed
      cases failed
  | error other =>
    have single : other.Single := Session.failsSingly_run other ran
    cases compare with
    | false =>
      rw [show replay _ script = _ from replaySingle_error settings.strategy ran] at failed
      cases failed
      exact single
    | true =>
      rw [show replay _ script = _ from replayBoth_error ran] at failed
      cases failed
      exact single

end Replays

/-- A replay under both strategies prints what a replay under one of them prints and the number of
settles, or both print nothing and have the same fault. No replay finds the strategies to differ. -/
theorem replay_both_eq_single (options : ReplayOptions) (strategy : Strategy)
    (script : List ScriptLine) :
    ((replay { options with strategy, compare := false } script).fault = none →
      replay { options with compare := true } script =
        { output := (replay { options with strategy, compare := false } script).output ++
            [s!"{settleCount script} settles, strategies agree"] }) ∧
    (∀ fault, (replay { options with strategy, compare := false } script).fault = some fault →
      (replay { options with strategy, compare := false } script).output = [] ∧
        replay { options with compare := true } script = { output := [], fault := some fault }) ∧
    ∀ fault, (replay options script).fault = some fault → fault.Single := by
  refine ⟨?_, ?_, fun fault => single_of_replay⟩
  · intro succeeded
    cases ran : options.reports .markSweep script with
    | ok reports => rw [replayBoth_ok ran, replaySingle_ok strategy ran]
    | error fault =>
      rw [replaySingle_error strategy ran] at succeeded
      cases succeeded
  · intro fault failed
    cases ran : options.reports .markSweep script with
    | ok reports =>
      rw [replaySingle_ok strategy ran] at failed
      cases failed
    | error other =>
      rw [replaySingle_error strategy ran] at failed ⊢
      cases failed
      exact ⟨rfl, replayBoth_error ran⟩

def briefHold : List ScriptLine :=
  [⟨1, .newContainer (.list .array) "a"⟩, ⟨2, .push "a" 2⟩, ⟨3, .settle⟩, ⟨4, .pop "a"⟩, ⟨5, .pop "a"⟩,
    ⟨6, .settle⟩]

def lateHold : List ScriptLine := briefHold ++ [⟨7, .push "a" 1⟩]

theorem replay_both_eq_single_hold :
    replay { compare := true } briefHold =
      { output := (replay { strategy := .incremental } briefHold).output ++
          [s!"{settleCount briefHold} settles, strategies agree"] } ∧
    replay { compare := true } lateHold =
      { output := [], fault := some (.failed 7 (.unknownName "a")) } := by
  have brief := (replay_both_eq_single {} .incremental briefHold).1
  have late := (replay_both_eq_single {} .incremental lateHold).2.1
  exact ⟨brief (by decide +kernel), (late _ (by decide +kernel)).2⟩

end Reclaim
