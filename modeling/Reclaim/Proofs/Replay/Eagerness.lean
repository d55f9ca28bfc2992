import Reclaim.Proofs.Replay.Agreement

/-! Eager sessions. A pass that nothing asks for is seen in the reports of a script exactly where it
finds a dead value that no settle would have examined, so eagerness can only be told where a value was
taken off the pending ones without being held. -/

set_option autoImplicit false

namespace Reclaim

theorem Budget.check_exceeded {budget : Budget} {ledger : Ledger}
    (exceeded : budget.maxReferences < ledger.total) :
    budget.check ledger = .error (.references ledger.total budget.maxReferences) :=
  if_pos exceeded

/-- After a loss of tracked values, and of references unless they were within the ceiling, a check
that finds the same has found nothing. -/
theorem Budget.ok_of_check_eq {budget : Budget} {before after : Ledger}
    (fewer : after.trackedCount < before.trackedCount) (less : after.total ≤ before.total)
    (seen : before.total ≤ budget.maxReferences ∨ after.total < before.total)
    (same : budget.check after = budget.check before) : budget.check before = .ok () := by
  unfold check at same ⊢
  by_cases exceeds : before.total > budget.maxReferences
  · have smaller := seen.resolve_left (Nat.not_le.mpr exceeds)
    rw [if_pos exceeds] at same
    split at same
    · have total := (BudgetError.references.inj (Except.error.inj same)).1
      exact absurd total (Nat.ne_of_lt smaller)
    · split at same <;> cases same
  · have within : ¬after.total > budget.maxReferences := by omega
    rw [if_neg exceeds] at same ⊢
    rw [if_neg within] at same
    split
    next many =>
      rw [if_pos many] at same
      split at same
      · have tracked := (BudgetError.tracked.inj (Except.error.inj same)).1
        exact absurd tracked (Nat.ne_of_lt fewer)
      · cases same
    next => rfl

namespace Session

variable {session first second : Session} {line : Nat}

/-- The reports that a script leads to before it ends, and the fault that ends it if there is one. -/
def history (session : Session) : List ScriptLine → List Report × Option Fault
  | [] => ([], none)
  | step :: rest =>
    match (session.step step).outcome with
    | .error fault => ([], some fault)
    | .ok (next, report) =>
      let (reports, fault) := next.history rest
      (report.toList ++ reports, fault)

theorem run_eq_history (session : Session) (script : List ScriptLine) : session.run script =
    match session.history script with
    | (reports, none) => .ok reports
    | (_, some fault) => .error fault := by
  induction script generalizing session with
  | nil => rfl
  | cons step rest ih =>
    unfold run history
    cases outcome : (session.step step).outcome with
    | error fault => rfl
    | ok pair =>
      obtain ⟨next, report⟩ := pair
      simp only [Bind.bind, Except.bind, ih]
      obtain ⟨reports, fault⟩ := next.history rest
      cases fault <;> rfl

def settles (session : Session) : List ScriptLine → List Session
  | [] => []
  | step :: rest =>
    (if step.op = .settle then [session] else []) ++
      match (session.step step).outcome with
      | .error _ => []
      | .ok (next, _) => next.settles rest

/-- A settle runs no pass although a value is dead, and this can be seen: either the budget is not
exceeded by the references, or the value has children to lose. -/
def Overlooks (session : Session) : Prop :=
  session.counter.ledger.hasPending = false ∧
    ∃ ref ∈ session.counter.ledger.tracked, ¬session.counter.ledger.Live session.heap ref ∧
      (session.counter.ledger.total ≤ session.budget.maxReferences ∨ 0 < session.heap.childCount ref)

section Idle

variable (idle : ¬(session.counter.ledger.hasPending || session.counter.eager))

include idle

theorem collected_of_idle : session.collected = [] := by
  unfold collected
  rw [Counter.skip_of_idle idle]
  rfl

theorem settle_of_idle : (session.settle line).outcome =
    ((session.budget.check session.counter.ledger).mapError (.failed line <| .budget ·)).map
      fun _ => (session.settled, some (session.report line session.counter.ledger.total)) := by
  have skipped : session.counter.settle session.heap = session.counter.skip session.heap :=
    Counter.skip_of_idle idle
  have result : (session.counter.settle session.heap).result = .ok session.counter.ledger.total := by
    rw [skipped]
    rfl
  have budget : session.settled.budget = session.budget := by
    unfold settled
    rw [collected_of_idle idle]
    rfl
  have ledger : session.settled.counter.ledger = session.counter.ledger := by
    unfold settled
    rw [collected_of_idle idle, skipped]
    rfl
  rw [settle_done result, budget, ledger]

end Idle

abbrev SameReport (first second : Session × Option Report) : Prop := first.2 = second.2

theorem check_eq_of_alike {first second : Except BudgetError Unit}
    {left right : Session × Option Report}
    (alike : Alike SameReport ((first.mapError (Fault.failed line <| .budget ·)).map fun _ => left)
      ((second.mapError (Fault.failed line <| .budget ·)).map fun _ => right)) :
    first = second ∧ (second = .ok () → left.2 = right.2) := by
  cases first <;> cases second
  case error.error =>
    cases alike
    exact ⟨rfl, fun done => nomatch done⟩
  case ok.ok => exact ⟨rfl, fun _ => alike⟩
  case error.ok | ok.error => cases alike

theorem report_ne_nil {count : Nat} {ref : Ref} {refs : List Ref} (sound : session.Sound)
    (leaves : session.counter.Leaves session.heap refs (session.counter.settle session.heap))
    (member : ref ∈ refs) : (session.report line count).removed ≠ [] := by
  intro empty
  obtain ⟨name, known⟩ := Option.isSome_iff_exists.mp (sound.known ref (leaves.dead ref member).1)
  have listed : name ∈ session.collected.filterMap (session.origins[·]?) := by
    rw [collected_eq leaves]
    exact List.mem_filterMap.mpr ⟨ref.id, List.mem_map_of_mem member, known⟩
  have sorted := (sortNames_perm _).mem_iff.mpr listed
  rw [show sortNames (session.collected.filterMap (session.origins[·]?)) = [] from empty] at sorted
  cases sorted

section Eager

variable (agrees : first.Agrees second) (sound : first.Sound) (sound' : second.Sound)
  (eager : first.counter.eager = true) (lazy : second.counter.eager = false)

include agrees sound sound' eager lazy

/-- A dead value that is overlooked shows in the report of a pass, or in its error. -/
theorem settle_of_overlooks (overlooks : second.Overlooks) :
    ¬Alike SameReport (first.settle line).outcome (second.settle line).outcome := by
  intro seen
  obtain ⟨idle, ref, tracked, dead, visible⟩ := overlooks
  have skips : ¬(second.counter.ledger.hasPending || second.counter.eager) := by simp [idle, lazy]
  have budget : first.budget = second.budget := agrees.worlds.budget
  rw [settle_of_idle skips] at seen
  have alike := sound.counter.ledger.valid.sameByValue sound'.counter.ledger.valid agrees.worlds.book
  have passes : first.counter.ledger.hasPending || first.counter.eager := by simp [eager]
  obtain ⟨refs, collects⟩ | refuses := Counter.settle_exact sound.counter passes
  -- The eager settle takes the value out. The budget could hide that only if it were exceeded alike before
  -- and after the loss.
  · have member : ref ∈ refs := by
      refine (collects.complete ref).mpr ⟨(alike.tracked ref).mpr tracked, fun live => dead ?_⟩
      exact (alike.live_iff agrees.heap).mp live
    rw [sound.settle_of_ok collects.result, budget] at seen
    obtain ⟨checked, reports⟩ := check_eq_of_alike seen
    have total : (first.counter.settle first.heap).counter.ledger.total =
        first.counter.ledger.total - first.heap.childTotal refs := collects.collects.total_eq
    have count : first.counter.ledger.trackedCount =
        refs.length + (first.counter.settle first.heap).counter.ledger.trackedCount :=
      collects.collects.trackedCount_eq sound.counter.cleared.ledger.valid
    have covered : first.heap.childTotal refs ≤ first.counter.ledger.total := collects.collects.covered
    have lost := Heap.childCount_le_childTotal first.heap member
    have present := List.length_pos_of_mem member
    rw [sound.counter.ledger.valid.trackedCount_congr sound'.counter.ledger.valid
      agrees.worlds.book] at count
    rw [alike.total] at total covered
    rw [← agrees.heap.childCount_eq] at visible
    have within := Budget.ok_of_check_eq (by omega) (by omega) (by omega) checked
    have removed : (first.report line _).removed = (second.report line _).removed :=
      congrArg Report.removed (Option.some.inj (reports within))
    refine report_ne_nil sound collects.leaves member (removed.trans ?_)
    rw [report, collected_of_idle skips]
    rfl
  -- An eager settle that is refused fails, which one without a pass does only over the budget.
  · rw [settle_refused refuses.result] at seen
    cases checked : second.budget.check second.counter.ledger <;> rw [checked] at seen <;> cases seen

/-- Where nothing is overlooked, an eager settle has the outcome of one that is not. -/
theorem settle_of_not_overlooks (fine : ¬second.Overlooks) :
    Alike SameOutcome (first.settle line).outcome (second.settle line).outcome := by
  have passes : first.counter.ledger.hasPending || first.counter.eager := by simp [eager]
  have books := agrees.worlds.book
  cases idle : second.counter.ledger.hasPending with
  | true =>
    exact agrees.settle sound sound' (Counter.passes_agree sound.counter sound'.counter books
      agrees.heap passes (by simp [idle]))
  | false =>
  have skips : ¬(second.counter.ledger.hasPending || second.counter.eager) := by simp [idle, lazy]
  by_cases live : ∀ ref ∈ second.counter.ledger.tracked, second.counter.ledger.Live second.heap ref
  · refine agrees.settle sound sound' ?_
    rw [Counter.skip_of_idle skips]
    exact Counter.pass_agrees_skip sound.counter sound'.counter books agrees.heap passes idle live
  -- What is dead has no children, and the references exceed the budget with it as without it.
  obtain ⟨found, tracked, dead⟩ : ∃ ref ∈ second.counter.ledger.tracked,
      ¬second.counter.ledger.Live second.heap ref := by
    simpa using live
  have hidden : ∀ ref ∈ second.counter.ledger.tracked, ¬second.counter.ledger.Live second.heap ref →
      second.budget.maxReferences < second.counter.ledger.total ∧ second.heap.childCount ref = 0 := by
    intro ref tracked dead
    have unseen : ¬(second.counter.ledger.total ≤ second.budget.maxReferences ∨
        0 < second.heap.childCount ref) := fun seen => fine ⟨idle, ref, tracked, dead, seen⟩
    omega
  have exceeded := (hidden found tracked dead).1
  have alike := sound.counter.ledger.valid.sameByValue sound'.counter.ledger.valid books
  have childless : ∀ refs : List Ref, (∀ ref ∈ refs, ref ∈ first.counter.ledger.tracked ∧
      ¬first.counter.ledger.Live first.heap ref) → first.heap.childTotal refs = 0 := by
    refine fun refs dead => Heap.childTotal_eq_zero fun ref member => ?_
    obtain ⟨tracked, dead⟩ := dead ref member
    rw [alike.live_iff agrees.heap] at dead
    rw [agrees.heap.childCount_eq]
    exact (hidden ref ((alike.tracked ref).mp tracked) dead).2
  have budget : first.budget = second.budget := agrees.worlds.budget
  rw [settle_of_idle skips, Budget.check_exceeded exceeded]
  obtain ⟨refs, collects⟩ | ⟨_, refs, _, dead, short⟩ := Counter.settle_exact sound.counter passes
  · have total : (first.counter.settle first.heap).counter.ledger.total =
        first.counter.ledger.total - first.heap.childTotal refs := collects.collects.total_eq
    rw [childless refs fun ref member => (collects.complete ref).mp member, alike.total] at total
    rw [sound.settle_of_ok collects.result, budget, Budget.check_exceeded (total ▸ exceeded), total]
    exact rfl
  · exact absurd short (by rw [childless refs dead]; exact Nat.not_lt_zero _)

end Eager

theorem settle_ok {next : Session} {report : Option Report}
    (done : (session.settle line).outcome = .ok (next, report)) :
    ∃ count, (session.counter.settle session.heap).result = .ok count ∧ next = session.settled ∧
      report = some (session.report line count) := by
  cases result : (session.counter.settle session.heap).result with
  | error error =>
    rw [settle_refused result] at done
    cases done
  | ok count =>
    rw [settle_done result] at done
    obtain ⟨_, _, same⟩ := ok_of_map done
    obtain ⟨rfl, rfl⟩ := Prod.mk.inj same
    exact ⟨count, rfl, rfl, rfl⟩

/-- What a line leaves behind: its session is sound, as eager as before, and nothing has lost its cover
unless holds were added without adding any. -/
theorem Sound.next {step : ScriptLine} {next : Session} {report : Option Report} (sound : session.Sound)
    (done : (session.step step).outcome = .ok (next, report)) :
    next.Sound ∧ next.counter.eager = session.counter.eager ∧
      ((∀ name count, step.op = .push name count → 1 ≤ count) →
        session.counter.ledger.book.Covered → next.counter.ledger.book.Covered) := by
  by_cases busy : step.op = .settle
  · have settled : (session.settle step.number).outcome = .ok (next, report) := by
      rw [← done, Session.step, busy]
    obtain ⟨count, result, rfl, _⟩ := settle_ok settled
    have counter : session.settled.counter = (session.counter.settle session.heap).counter :=
      congrArg World.counter sound.named.settled.world
    have performed : session.world.perform .settle =
        ((session.world.perform .settle).1, .ok (.number count)) :=
      Prod.ext rfl (World.settle_answer result)
    rw [counter]
    exact ⟨sound.settled result, Counter.eager_settle,
      fun _ covered => World.covered_settle sound.agrees covered performed⟩
  · obtain ⟨_, plan, world, performs⟩ := sound.performs busy done
    -- A line that is not a settle does what the calls of its plan do.
    obtain ⟨_, carries⟩ := performs.carries
    have counter : next.counter = world.counter := by
      rw [performs.next, counter_label]
      rfl
    rw [counter]
    refine ⟨performs.sound sound, World.eager_performAll performs.performed, fun positive covered => ?_⟩
    refine (performs.keeps (fun world owed => world.Sound owed ∧ world.counter.ledger.book.Covered)
      (fun call => ∀ item count, call = .addHolds item count → 1 ≤ count)
      (fun _ _ _ _ _ kept allowed positive performed => ⟨kept.1.perform allowed performed,
        World.covered_perform kept.1 kept.2 allowed positive performed⟩)
      ⟨sound.agrees, covered⟩ fun call member item count same => ?_).2
    obtain ⟨name, pushes⟩ := carries.holds item count (same ▸ member)
    exact positive name count pushes

theorem alike_of_history {step : ScriptLine} {rest : List ScriptLine} (settles : step.op = .settle)
    (same : first.history (step :: rest) = second.history (step :: rest)) :
    Alike SameReport (first.settle step.number).outcome (second.settle step.number).outcome := by
  have outcome : ∀ session : Session, (session.step step).outcome =
      (session.settle step.number).outcome := fun session => by rw [Session.step, settles]
  simp only [history, outcome] at same
  cases done : (first.settle step.number).outcome with
  | error fault =>
    cases done' : (second.settle step.number).outcome with
    | error fault' =>
      rw [done, done'] at same
      exact Option.some.inj (Prod.ext_iff.mp same).2
    | ok pair =>
      obtain ⟨next, report⟩ := pair
      obtain ⟨_, _, _, rfl⟩ := settle_ok done'
      simp [done, done'] at same
  | ok pair =>
    obtain ⟨next, report⟩ := pair
    obtain ⟨_, _, _, rfl⟩ := settle_ok done
    cases done' : (second.settle step.number).outcome with
    | error fault => simp [done, done'] at same
    | ok pair =>
      obtain ⟨next', report'⟩ := pair
      obtain ⟨_, _, _, rfl⟩ := settle_ok done'
      simp only [done, done', Option.toList_some, List.cons_append, List.nil_append, Prod.mk.injEq,
        List.cons.injEq] at same
      exact congrArg some same.1.1

theorem history_eq_iff (agrees : first.Agrees second) (sound : first.Sound) (sound' : second.Sound)
    (eager : first.counter.eager = true) (lazy : second.counter.eager = false)
    (script : List ScriptLine) : first.history script = second.history script ↔
      ∀ session ∈ second.settles script, ¬session.Overlooks := by
  induction script generalizing first second with
  | nil => simp [history, settles]
  | cons step rest ih =>
    -- Up to the first settle that overlooks a value the outcomes are the same, and there they differ.
    by_cases fine : step.op = .settle → ¬second.Overlooks
    · have alike : Alike SameOutcome (first.step step).outcome (second.step step).outcome := by
        by_cases busy : step.op = .settle
        · rw [Session.step, Session.step, busy]
          exact settle_of_not_overlooks agrees sound sound' eager lazy (fine busy)
        · exact agrees.step sound sound' busy
      have here : ∀ session ∈ (if step.op = .settle then [second] else []), ¬session.Overlooks := by
        split
        next busy => exact List.forall_mem_singleton.mpr (fine busy)
        next => exact fun _ member => nomatch member
      unfold history settles
      rw [List.forall_mem_append, and_iff_right here]
      obtain ⟨fault, failed, failed'⟩ | ⟨⟨next, report⟩, ⟨next', report'⟩, done, done', same, reports⟩ :=
        alike.cases
      · rw [failed, failed']
        exact iff_of_true rfl fun _ member => nomatch member
      · obtain ⟨kept, eager', _⟩ := sound.next done
        obtain ⟨kept', lazy', _⟩ := sound'.next done'
        obtain rfl : report = report' := reports
        rw [done, done', ← ih same kept kept' (eager'.trans eager) (lazy'.trans lazy)]
        simp only [Prod.ext_iff, List.append_cancel_left_eq]
    · obtain ⟨busy, overlooks⟩ := not_forall.mp fine
      refine iff_of_false (fun same => ?_) fun all => ?_
      · exact settle_of_overlooks agrees sound sound' eager lazy (not_not.mp overlooks)
          (alike_of_history busy same)
      · refine all second ?_ (not_not.mp overlooks)
        simp [settles, busy]

/-- Where every addition of holds adds some, no settle overlooks a value. -/
theorem not_overlooks (sound : session.Sound) (covered : session.counter.ledger.book.Covered)
    (script : List ScriptLine)
    (positive : ∀ step ∈ script, ∀ name count, step.op = .push name count → 1 ≤ count) :
    ∀ visited ∈ session.settles script, ¬visited.Overlooks := by
  induction script generalizing session with
  | nil => exact fun _ member => nomatch member
  | cons step rest ih =>
    obtain ⟨here, positive⟩ := List.forall_mem_cons.mp positive
    unfold settles
    rw [List.forall_mem_append]
    constructor
    · split
      next =>
        rintro _ member ⟨idle, ref, tracked, dead, _⟩
        rw [List.mem_singleton.mp member] at idle tracked dead
        exact dead (sound.counter.ledger.live_of_covered covered idle ref tracked)
      next => exact fun _ member => nomatch member
    · split
      next => exact fun _ member => nomatch member
      next next report done =>
        obtain ⟨kept, _, keeps⟩ := sound.next done
        exact ih kept (keeps here covered) positive

/-- A script is reported alike by an eager session and by one that is not, exactly if no settle of the
latter overlooks a value. None does if every addition of holds adds some. -/
theorem eager_history_eq_iff (settings : Settings) (script : List ScriptLine) :
    ({ settings with eager := true }.session.history script =
        { settings with eager := false }.session.history script ↔
      ∀ session ∈ { settings with eager := false }.session.settles script, ¬session.Overlooks) ∧
    ((∀ step ∈ script, ∀ name count, step.op = .push name count → 1 ≤ count) →
      { settings with eager := true }.session.history script =
        { settings with eager := false }.session.history script) := by
  have agrees : { settings with eager := true }.session.Agrees
      { settings with eager := false }.session :=
    ⟨⟨rfl, ⟨rfl, rfl⟩, rfl, rfl⟩, rfl, rfl⟩
  have exact_iff := history_eq_iff agrees (sound_session _) (sound_session _) rfl rfl script
  refine ⟨exact_iff, fun positive => exact_iff.mpr ?_⟩
  exact not_overlooks (sound_session _) (World.covered_counter _) script positive

/-- An array is made, held no times and settled. -/
def idlePush : List ScriptLine :=
  [⟨1, .newContainer (.list .array) "a"⟩, ⟨2, .push "a" 0⟩, ⟨3, .settle⟩]

-- Being held no times takes the array off the pending values, although nothing holds it: the settle
-- has nothing pending, and only the eager one collects it.
theorem eager_history_ne : ∃ script, readScript "new array a\npush a 0\nsettle" = .ok script ∧
    ({ eager := true } : Settings).session.history script ≠
      ({} : Settings).session.history script :=
  ⟨idlePush, by decide +kernel, by decide +kernel⟩

end Session

end Reclaim
