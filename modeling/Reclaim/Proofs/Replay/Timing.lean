import Reclaim.Proofs.Plain.Delay
import Reclaim.Proofs.Replay.Comparison

/-! When to settle. A script with more settles reports the same counts at the settles that it shares with
the other, and by then it has reported the same names: garbage is only found earlier. -/

set_option autoImplicit false

namespace Reclaim

/-- The second script has the lines of the first, however numbered, and more settles. -/
inductive Padded : List ScriptLine → List ScriptLine → Prop where
  | nil : Padded [] []
  | line {step step' : ScriptLine} {first second : List ScriptLine} (same : step'.op = step.op)
      (rest : Padded first second) : Padded (step :: first) (step' :: second)
  | settle {step : ScriptLine} {first second : List ScriptLine} (settles : step.op = .settle)
      (rest : Padded first second) : Padded first (step :: second)

namespace Session

variable {session next other next' : Session} {step step' : ScriptLine} {report report' : Option Report}
  {gone : List Ident} {names : List String}

theorem Tracks.closed_plain (tracks : session.Tracks) : session.plain.Closed := by
  intro id child contained inner same
  rw [tracks.mem_idents]
  cases known : session.book.item? id with
  | none =>
    have empty : session.plain.children id = [] := by
      simp [Machine.children, Machine.content, plain, known]
    rw [empty] at contained
    cases contained
  | some owner =>
    rw [children_plain known] at contained
    cases owner with
    | container ownerId => exact tracks.knows_child contained inner same
    | buffer ownerId => cases contained

theorem Tracks.plain_step (tracks : session.Tracks) (covered : session.book.Covered)
    (done : (session.step step).outcome = .ok (next, report)) :
    session.plain.step session.budget step = .ok (next.plain, report) := by
  by_cases busy : step.op = .settle
  · rw [Session.step, busy] at done
    obtain ⟨count, result, _⟩ := settle_ok done
    have alike : Alike _ _ (session.settle step.number).outcome := tracks.alike_settled covered result
    rw [done] at alike
    obtain ⟨fault, _, failed⟩ | ⟨machine, _, settled, same, rfl, _⟩ := alike.cases
    · cases failed
    · cases same
      rw [Machine.step, busy]
      exact settled
  · obtain ⟨machine, result, stepped, outcome, mirrors⟩ := tracks.mirrors_step session.budget busy
    rw [outcome] at done
    obtain ⟨after, rfl, same⟩ := ok_of_map done
    cases mirrors with
    | done mirrored =>
      cases same
      rw [stepped, mirrored]
      rfl

theorem Tracks.plain_settle (tracks : session.Tracks) (covered : session.book.Covered)
    (settles : step.op = .settle) (done : (session.step step).outcome = .ok (next, report)) :
    next.plain = session.plain.without session.plain.dead ∧ report = some
      { line := step.number, count := next.plain.total.toNat, retained := next.plain.idents.length
        removed := sortNames (session.plain.namesOf session.plain.dead) } := by
  have stepped := tracks.plain_step covered done
  rw [Machine.step, settles] at stepped
  exact Machine.settle_ok stepped

section Lines

variable (lags : session.plain.Lags gone names other.plain) (tracks : session.Tracks)
  (tracks' : other.Tracks) (covered : session.book.Covered) (covered' : other.book.Covered)

include lags tracks tracks' covered covered'

theorem lags_line (same : step'.op = step.op) (busy : step.op ≠ .settle)
    (done : (session.step step).outcome = .ok (next, report))
    (done' : (other.step step').outcome = .ok (next', report')) :
    next.plain.Lags gone names next'.plain ∧ report = none ∧ report' = none := by
  obtain ⟨result, result', stepped, stepped', follows⟩ :=
    lags.follows_step session.budget other.budget same busy
  obtain ⟨after, rfl, same⟩ := ok_of_map (stepped.symm.trans (tracks.plain_step covered done))
  obtain ⟨after', rfl, same'⟩ := ok_of_map (stepped'.symm.trans (tracks'.plain_step covered' done'))
  cases same
  cases same'
  cases follows with
  | done later => exact ⟨later, rfl, rfl⟩

theorem lags_settle (settles : step.op = .settle) (settles' : step'.op = .settle)
    (done : (session.step step).outcome = .ok (next, report))
    (done' : (other.step step').outcome = .ok (next', report')) :
    next.plain = next'.plain ∧ ∃ first second, report = some first ∧ report' = some second ∧
      (first.line = step.number ∧ second.line = step'.number ∧ first.count = second.count ∧
        first.retained = second.retained) ∧
      first.removed.Perm (names ++ second.removed) := by
  obtain ⟨left, rfl⟩ := tracks.plain_settle covered settles done
  obtain ⟨left', rfl⟩ := tracks'.plain_settle covered' settles' done'
  have same : next.plain = next'.plain := by
    rw [left, left', lags.without_dead tracks'.closed_plain]
  refine ⟨same, _, _, rfl, rfl, ⟨rfl, rfl, ?_, ?_⟩, lags.names_perm tracks'.closed_plain⟩
  · rw [same]
  · rw [same]

end Lines

theorem lags_extra (lags : session.plain.Lags gone names other.plain) (tracks' : other.Tracks)
    (covered' : other.book.Covered) (settles' : step'.op = .settle)
    (done' : (other.step step').outcome = .ok (next', report')) : ∃ gone second,
      report' = some second ∧ session.plain.Lags gone (names ++ second.removed) next'.plain := by
  obtain ⟨left, rfl⟩ := tracks'.plain_settle covered' settles' done'
  rw [left]
  exact ⟨_, _, rfl, lags.settle⟩

end Session

/-- What two replays have reported at a settle on these lines, when the second has reported some names
before these reports. -/
structure Concur (step step' : ScriptLine) (names : List String) (first second : List Report)
    (position position' : Nat) : Prop where
  reports : ∃ report report', first[position]? = some report ∧ second[position']? = some report' ∧
    report.line = step.number ∧ report'.line = step'.number ∧ report.count = report'.count ∧
    report.retained = report'.retained
  removed : ((first.take (position + 1)).flatMap (·.removed)).Perm
    (names ++ (second.take (position' + 1)).flatMap (·.removed))

namespace Concur

variable {step step' : ScriptLine} {names : List String} {first second : List Report}
  {position position' : Nat} {report report' : Report}

theorem here (same : report.line = step.number ∧ report'.line = step'.number ∧
      report.count = report'.count ∧ report.retained = report'.retained)
    (removed : report.removed.Perm (names ++ report'.removed)) :
    Concur step step' names (report :: first) (report' :: second) 0 0 where
  reports := ⟨report, report', rfl, rfl, same⟩
  removed := by simpa using removed

theorem both (removed : report.removed.Perm (names ++ report'.removed))
    (later : Concur step step' [] first second position position') :
    Concur step step' names (report :: first) (report' :: second) (position + 1) (position' + 1) where
  reports := later.reports
  removed := by
    rw [List.take_succ_cons, List.take_succ_cons, List.flatMap_cons, List.flatMap_cons,
      ← List.append_assoc]
    exact removed.append later.removed

theorem extra
    (later : Concur step step' (names ++ report'.removed) first second position position') :
    Concur step step' names first (report' :: second) position (position' + 1) where
  reports := later.reports
  removed := by
    rw [List.take_succ_cons, List.flatMap_cons, ← List.append_assoc]
    exact later.removed

end Concur

namespace Session

variable {session other : Session} {step step' : ScriptLine} {gone : List Ident} {names : List String}
  {before before' rest rest' : List ScriptLine} {reports reports' : List Report}

theorem settleCount_cons : settleCount (step :: rest) =
    settleCount rest + if step.op = .settle then 1 else 0 := by
  rw [settleCount, settleCount, List.countP_cons]
  simp only [decide_eq_true_iff]

theorem concur_of_padded (padded : Padded before before') (settles : step.op = .settle)
    (settles' : step'.op = .settle) (lags : session.plain.Lags gone names other.plain)
    (tracks : session.Tracks) (tracks' : other.Tracks) (covered : session.book.Covered)
    (covered' : other.book.Covered)
    (positive : ∀ step ∈ before, ∀ name count, step.op = .push name count → 1 ≤ count)
    (ran : session.run (before ++ step :: rest) = .ok reports)
    (ran' : other.run (before' ++ step' :: rest') = .ok reports') :
    Concur step step' names reports reports' (settleCount before) (settleCount before') := by
  -- Along the lines of both scripts, up to a settle that they share.
  induction padded generalizing session other gone names reports reports' with
  | nil =>
    obtain ⟨next, report, others, done, _, rfl⟩ := run_cons ran
    obtain ⟨next', report', others', done', _, rfl⟩ := run_cons ran'
    obtain ⟨_, first, second, rfl, rfl, same, removed⟩ :=
      lags_settle lags tracks tracks' covered covered' settles settles' done done'
    exact .here same removed
  | @line line line' before before' same padded ih =>
    obtain ⟨here, positive⟩ := List.forall_mem_cons.mp positive
    obtain ⟨next, report, others, done, more, rfl⟩ := run_cons ran
    obtain ⟨next', report', others', done', more', rfl⟩ := run_cons ran'
    have kept := (tracks.step done).1
    have kept' := (tracks'.step done').1
    have covers := (tracks.next done).2.2 here covered
    have covers' := (tracks'.next done').2.2 (same ▸ here) covered'
    rw [settleCount_cons, settleCount_cons, same]
    by_cases busy : line.op = .settle
    · obtain ⟨equal, first, second, rfl, rfl, _, removed⟩ :=
        lags_settle lags tracks tracks' covered covered' busy (same.trans busy) done done'
      have together : next.plain.Lags [] [] next'.plain := equal ▸ .refl
      rw [if_pos busy]
      exact .both removed (ih together kept kept' covers covers' positive more more')
    · obtain ⟨later, rfl, rfl⟩ := lags_line lags tracks tracks' covered covered' same busy done done'
      rw [if_neg busy]
      exact ih later kept kept' covers covers' positive more more'
  | @settle line before before' busy padded ih =>
    obtain ⟨next', report', others', done', more', rfl⟩ := run_cons ran'
    have kept' := (tracks'.step done').1
    have idle : ∀ name count, line.op = .push name count → 1 ≤ count := fun name count pushes => by
      rw [busy] at pushes
      cases pushes
    have covers' := (tracks'.next done').2.2 idle covered'
    obtain ⟨gone, second, rfl, later⟩ := lags_extra lags tracks' covered' busy done'
    rw [settleCount_cons, if_pos busy]
    exact .extra (ih later tracks kept' covered covers' positive ran more')

end Session

/-- Where every addition of holds adds some, a settle reports the same count and retains as many values
however many settles there are before it, and by then the same names have been reported. -/
theorem Settings.settle_timing (settings settings' : Settings)
    {before before' rest rest' : List ScriptLine} {step step' : ScriptLine}
    {reports reports' : List Report} (padded : Padded before before') (settles : step.op = .settle)
    (settles' : step'.op = .settle)
    (positive : ∀ step ∈ before, ∀ name count, step.op = .push name count → 1 ≤ count)
    (ran : settings.session.run (before ++ step :: rest) = .ok reports)
    (ran' : settings'.session.run (before' ++ step' :: rest') = .ok reports') :
    ∃ report report', reports[settleCount before]? = some report ∧
      reports'[settleCount before']? = some report' ∧ report.line = step.number ∧
      report'.line = step'.number ∧ report.count = report'.count ∧
      report.retained = report'.retained ∧
      ((reports.take (settleCount before + 1)).flatMap (·.removed)).Perm
        ((reports'.take (settleCount before' + 1)).flatMap (·.removed)) := by
  have together : settings.session.plain.Lags [] [] settings'.session.plain := by
    rw [Session.plain_session, Session.plain_session]
    exact .refl
  obtain ⟨⟨report, report', found, found', line, line', count, retained⟩, removed⟩ :=
    Session.concur_of_padded padded settles settles' together (Session.tracks_session settings)
      (Session.tracks_session settings') (World.covered_counter settings)
      (World.covered_counter settings') positive ran ran'
  exact ⟨report, report', found, found', line, line', count, retained, removed⟩

def lateSettle : List ScriptLine :=
  [⟨1, .newContainer (.list .array) "a"⟩, ⟨2, .newContainer (.list .array) "b"⟩, ⟨3, .push "b" 1⟩,
    ⟨4, .append "b" "a"⟩, ⟨5, .remove "b" 0⟩, ⟨6, .append "b" "b"⟩]

/-- It is collected before the held one changes once more. -/
def earlySettle : List ScriptLine :=
  [⟨1, .newContainer (.list .array) "a"⟩, ⟨2, .newContainer (.list .array) "b"⟩, ⟨3, .push "b" 1⟩,
    ⟨4, .append "b" "a"⟩, ⟨5, .remove "b" 0⟩, ⟨6, .settle⟩, ⟨7, .append "b" "b"⟩]

theorem Settings.settle_timing_late : ∃ reports reports',
    ({} : Settings).session.run (lateSettle ++ [⟨7, .settle⟩]) = .ok reports ∧
      ({ strategy := .incremental } : Settings).session.run (earlySettle ++ [⟨8, .settle⟩]) =
        .ok reports' ∧
      reports.flatMap (·.removed) = ["a"] ∧
      (reports.flatMap (·.removed)).Perm (reports'.flatMap (·.removed)) := by
  have ran : ({} : Settings).session.run (lateSettle ++ [⟨7, .settle⟩]) =
      .ok [⟨7, 2, 1, ["a"]⟩] := by decide +kernel
  have ran' : ({ strategy := .incremental } : Settings).session.run (earlySettle ++ [⟨8, .settle⟩]) =
      .ok [⟨6, 1, 1, ["a"]⟩, ⟨8, 2, 1, []⟩] := by decide +kernel
  have positive : ∀ step ∈ lateSettle, ∀ name count, step.op = .push name count → 1 ≤ count := by
    intro step member name count pushes
    simp only [lateSettle, List.mem_cons, List.not_mem_nil, or_false] at member
    rcases member with rfl | rfl | rfl | rfl | rfl | rfl <;> cases pushes
    exact Nat.le_refl 1
  have padded : Padded lateSettle earlySettle :=
    .line rfl <| .line rfl <| .line rfl <| .line rfl <| .line rfl <| .settle rfl <| .line rfl .nil
  obtain ⟨_, _, _, _, _, _, _, _, removed⟩ := settle_timing {} { strategy := .incremental } padded
    rfl rfl positive ran ran'
  exact ⟨_, _, ran, ran', rfl, removed⟩

end Reclaim
