import Reclaim.Proofs.Plain.Lines
import Reclaim.Proofs.Plain.Settling

/-! A replay reports what the plain heap reports. Line by line a session stands for a plain heap, so
a script has the same reports or the same first fault on both, whatever the strategy and the budget. -/

set_option autoImplicit false

namespace Reclaim

namespace Machine

def Throughout (wanted : Machine → Op → Machine → Prop) (budget : Budget) (machine : Machine) :
    List ScriptLine → Prop
  | [] => True
  | line :: rest =>
    match machine.step budget line with
    | .ok (next, _) => wanted machine line.op next ∧ next.Throughout wanted budget rest
    | .error _ => True

instance decidableThroughout (wanted : Machine → Op → Machine → Prop)
    [∀ before op next, Decidable (wanted before op next)] (budget : Budget) (machine : Machine) :
    (script : List ScriptLine) → Decidable (machine.Throughout wanted budget script)
  | [] => .isTrue trivial
  | line :: rest =>
    match stepped : machine.step budget line with
    | .ok (next, _) =>
      have := decidableThroughout wanted budget next rest
      decidable_of_iff (wanted machine line.op next ∧ next.Throughout wanted budget rest) <| by
        rw [Throughout, stepped]
    | .error _ => .isTrue <| by
      rw [Throughout, stepped]
      trivial

end Machine

namespace Session

variable {session next : Session} {script : List ScriptLine}

theorem budget_step {step : ScriptLine} {report : Option Report} (sound : session.Sound)
    (done : (session.step step).outcome = .ok (next, report)) : next.budget = session.budget := by
  by_cases busy : step.op = .settle
  · rw [Session.step, busy] at done
    obtain ⟨_, _, rfl, _⟩ := settle_ok done
    exact congrArg World.budget sound.named.settled.world
  · obtain ⟨_, plan, world, performs⟩ := sound.performs busy done
    have same : next.world = (session.resume world).world := performs.next ▸ world_label
    exact congrArg World.budget same

/-- A line fails alike in both, or leaves a session that stands for the plain heap that it leaves,
unless something does not fit. -/
theorem Tracks.step_plain (tracks : session.Tracks) (covered : session.book.Covered)
    (solvent : 0 ≤ session.plain.scalars) (step : ScriptLine) :
    (∃ fault, session.plain.step session.budget step = .error fault ∧
      (session.step step).outcome = .error fault) ∨
    (∃ next report, session.plain.step session.budget step = .ok (next.plain, report) ∧
      (session.step step).outcome = .ok (next, report) ∧ next.Known) ∨
    ∃ machine report, session.plain.step session.budget step = .ok (machine, report) ∧
      ¬session.plain.Fits step.op machine := by
  by_cases busy : step.op = .settle
  · rw [Machine.step, Session.step, busy]
    obtain ⟨fault, failed, failed'⟩ | ⟨machine, ⟨next, report⟩, done, done', rfl, known⟩ :=
      (tracks.alike_settle covered solvent).cases
    · exact .inl ⟨fault, failed, failed'⟩
    · exact .inr (.inl ⟨next, report, done, done', known⟩)
  · obtain ⟨machine, result, stepped, outcome, mirrors⟩ := tracks.mirrors_step session.budget busy
    rw [stepped, outcome]
    cases mirrors with
    | failed fault => exact .inl ⟨fault, rfl, rfl⟩
    | @done machine next same known => exact .inr (.inl ⟨next, none, same ▸ rfl, rfl, known⟩)
    | @unfit machine fault unfit _ => exact .inr (.inr ⟨machine, none, rfl, unfit⟩)

theorem Tracks.run_plain (tracks : session.Tracks) (covered : session.book.Covered)
    (solvent : 0 ≤ session.plain.scalars)
    (positive : ∀ step ∈ script, ∀ name count, step.op = .push name count → 1 ≤ count)
    (fits : session.plain.Throughout Machine.Fits session.budget script) :
    session.run script = session.plain.run session.budget script := by
  -- By induction on the script, since a line leaves a session that the rest can be told of alike.
  induction script generalizing session with
  | nil => rfl
  | cons step rest ih =>
    obtain ⟨here, positive⟩ := List.forall_mem_cons.mp positive
    rw [Session.run, Machine.run]
    rw [Machine.Throughout] at fits
    obtain ⟨fault, stepped, done⟩ | ⟨next, report, stepped, done, known⟩ |
      ⟨machine, report, stepped, unfit⟩ := tracks.step_plain covered solvent step
    · rw [stepped, done]
      rfl
    · rw [stepped] at fits
      obtain ⟨⟨solvent, _⟩, later⟩ := fits
      obtain ⟨sound, _, keeps⟩ := tracks.next done
      have budget := budget_step tracks.toSound done
      rw [← budget] at later
      have same := ih ⟨sound, known⟩ (keeps here covered) solvent positive later
      rw [stepped, done, ← budget]
      exact congrArg (fun reports => reports >>= fun reports => pure (report.toList ++ reports)) same
    · rw [stepped] at fits
      exact absurd fits.1 unfit

end Session

/-- Where every addition of holds adds some, no scalar is let go more often than held, and all counts
and blocks fit, a script is replayed as on a plain heap. -/
theorem Settings.run_eq_plain (settings : Settings) (script : List ScriptLine)
    (positive : ∀ step ∈ script, ∀ name count, step.op = .push name count → 1 ≤ count)
    (fits : Machine.Throughout Machine.Fits settings.budget {} script) :
    settings.session.run script = Machine.run {} settings.budget script := by
  have tracks := Session.tracks_session settings
  have plain := Session.plain_session settings
  have solvent : 0 ≤ settings.session.plain.scalars := plain ▸ Int.le_refl 0
  have budget : settings.session.budget = settings.budget := rfl
  have run := tracks.run_plain (World.covered_counter settings) solvent positive
  rw [plain, budget] at run
  exact run fits

/-- Two arrays that contain each other are held, settled and let go. -/
def cycleScript : List ScriptLine :=
  [⟨1, .newContainer (.list .array) "a"⟩, ⟨2, .newContainer (.list .array) "b"⟩, ⟨3, .push "a" 1⟩,
    ⟨4, .append "a" "b"⟩, ⟨5, .append "b" "a"⟩, ⟨6, .settle⟩, ⟨7, .pop "a"⟩, ⟨8, .settle⟩]

theorem Settings.run_eq_plain_cycle :
    ({} : Settings).session.run cycleScript = Machine.run {} {} cycleScript := by
  have positive : ∀ step ∈ cycleScript, ∀ name count, step.op = .push name count → 1 ≤ count := by
    intro step member name count pushes
    simp only [cycleScript, List.mem_cons, List.not_mem_nil, or_false] at member
    rcases member with rfl | rfl | rfl | rfl | rfl | rfl | rfl | rfl <;> cases pushes
    exact Nat.le_refl 1
  exact run_eq_plain {} cycleScript positive (by decide +kernel)

def hugeBuffer : List ScriptLine := [⟨1, .newBuffer "b" 9223372036854775808⟩]

/-- A place is taken by another child when the total is the largest count. -/
def fullSet : List ScriptLine :=
  [⟨1, .newContainer (.list .array) "a"⟩, ⟨2, .int "x" 1⟩, ⟨3, .append "a" "x"⟩,
    ⟨4, .push "x" 18446744073709551614⟩, ⟨5, .set "a" 0 "x"⟩]

def Machine.Countable (_ : Machine) (_ : Op) (next : Machine) : Prop :=
  0 ≤ next.scalars ∧ next.total ≤ maxCount

instance {before next : Machine} {op : Op} : Decidable (before.Countable op next) :=
  inferInstanceAs (Decidable (_ ∧ _))

-- The totals after each line are counts, but a block of this size is not to be had, and the new child
-- counts before the old one goes: the replay is aborted where the plain heap goes on.
theorem Settings.run_ne_plain :
    (readScript "new buffer b 9223372036854775808" = .ok hugeBuffer ∧
      (∀ step ∈ hugeBuffer, ∀ name count, step.op = .push name count → 1 ≤ count) ∧
      Machine.Throughout Machine.Countable {} {} hugeBuffer ∧
      ({} : Settings).session.run hugeBuffer ≠ Machine.run {} {} hugeBuffer) ∧
    readScript "new array a\nint x 1\nappend a x\npush x 18446744073709551614\nset a 0 x" =
        .ok fullSet ∧
      (∀ step ∈ fullSet, ∀ name count, step.op = .push name count → 1 ≤ count) ∧
      Machine.Throughout Machine.Countable {} {} fullSet ∧
      ({} : Settings).session.run fullSet ≠ Machine.run {} {} fullSet := by
  refine ⟨⟨by decide +kernel, ?_, by decide +kernel, ne_of_apply_ne Except.isOk (by decide +kernel)⟩,
    by decide +kernel, ?_, by decide +kernel, ne_of_apply_ne Except.isOk (by decide +kernel)⟩
  · intro step member name count pushes
    simp only [hugeBuffer, List.mem_cons, List.not_mem_nil, or_false] at member
    rw [member] at pushes
    cases pushes
  · intro step member name count pushes
    simp only [fullSet, List.mem_cons, List.not_mem_nil, or_false] at member
    rcases member with rfl | rfl | rfl | rfl | rfl <;> cases pushes
    omega

end Reclaim
