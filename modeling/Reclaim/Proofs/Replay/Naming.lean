import Reclaim.Proofs.Replay.History

/-! Names follow collection. A tracked value is known by the name of the line that made it, whatever that
name is bound to by now, and this is the name in the report of the settle that takes it out. -/

set_option autoImplicit false

namespace Reclaim

/-- The names of a report are those of the lines that have made the values that left the ledger. -/
structure Report.Names (report : Report) (made : List (Ref × String)) (before after : Ledger) : Prop where
  sorted : report.removed.Pairwise (· ≤ ·)
  named : ∃ collected : List (Ref × String), report.removed.Perm (collected.map Prod.snd) ∧
    (collected.map Prod.fst).Nodup ∧ (∀ pair ∈ collected, pair ∈ made) ∧
    ∀ ref, ref ∈ collected.map Prod.fst ↔ ref ∈ before.tracked ∧ ref ∉ after.tracked

namespace Session

variable {session next : Session} {script : List ScriptLine} {step : ScriptLine} {report : Option Report}
  {made : List (Ref × String)} {gone refs : List Ref} {line count : Nat}

theorem Sound.reported (sound : session.Sound) (line count : Nat)
    (leaves : session.counter.Leaves session.heap refs (session.counter.settle session.heap)) :
    ∃ collected : List (Ref × String), collected.map Prod.fst = refs ∧
      (∀ pair ∈ collected, session.origins[pair.1.id]? = some pair.2) ∧
      (session.report line count).removed.Perm (collected.map Prod.snd) := by
  let origin : Ref → String := fun ref => (session.origins[ref.id]?).getD ""
  have known : ∀ ref ∈ refs, session.origins[ref.id]? = some (origin ref) := fun ref member => by
    obtain ⟨name, known⟩ := Option.isSome_iff_exists.mp (sound.known ref (leaves.dead ref member).1)
    simp [origin, known]
  refine ⟨refs.map fun ref => (ref, origin ref), ?_, fun pair member => ?_, ?_⟩
  · rw [List.map_map]
    exact List.map_id refs
  · obtain ⟨ref, taken, rfl⟩ := List.mem_map.mp member
    exact known ref taken
  · refine (sortNames_perm _).trans (.of_eq ?_)
    rw [collected_eq leaves, List.filterMap_map, List.map_map]
    exact (List.filterMap_congr known).trans (congrFun List.filterMap_eq_map refs)

theorem Sound.length_removed (sound : session.Sound)
    (done : (session.step step).outcome = .ok (next, report)) :
    (report.toList.map (·.removed.length)).sum = (session.removal step.op).length := by
  by_cases busy : step.op = .settle
  · rw [Session.step, busy] at done
    obtain ⟨count, result, _, rfl⟩ := settle_ok done
    obtain ⟨refs, leaves⟩ := sound.counter.leaves result
    obtain ⟨collected, taken, _, names⟩ := sound.reported step.number count leaves
    rw [busy, removal_of_leaves leaves, ← taken, List.length_map]
    simpa using names.length_eq
  · rw [(sound.performs busy done).1, removal_of_busy busy]
    rfl

/-- Lines that all succeed are replayed with what follows them. Their reports have a name for each value
that they take out. -/
theorem Sound.run_of_advance (sound : session.Sound) (advanced : session.advance script = .ok next) :
    ∃ reports, (reports.map (·.removed.length)).sum = (session.removals script).length ∧
      ∀ more others, next.run more = .ok others → session.run (script ++ more) = .ok (reports ++ others) := by
  induction script generalizing session with
  | nil =>
    cases advanced
    exact ⟨[], rfl, fun _ _ ran => ran⟩
  | cons step rest ih =>
    obtain ⟨middle, report, done, later⟩ := advance_cons advanced
    obtain ⟨reports, names, runs⟩ := ih (sound.next done).1 later
    refine ⟨report.toList ++ reports, ?_, fun more others ran => ?_⟩
    · rw [List.map_append, List.sum_append, sound.length_removed done, names, removals_cons done,
        List.length_append]
    · rw [List.cons_append, run, done]
      change middle.run (rest ++ more) >>= _ = _
      rw [runs more others ran, List.append_assoc]
      rfl

namespace Recalls

theorem origin_iff (recalls : session.Recalls made gone) (id : Ident) (name : String) :
    session.origins[id]? = some name ↔
      ∃ ref ∈ session.counter.ledger.tracked, ref.id = id ∧ (ref, name) ∈ made := by
  constructor
  · intro known
    obtain ⟨ref, tracked, rfl⟩ := recalls.tracked id (by rw [known]; rfl)
    obtain ⟨⟨_, other⟩, member, rfl⟩ := List.mem_map.mp (recalls.mem_made.mpr (.inr tracked))
    cases known.symm.trans (recalls.origin _ other member tracked)
    exact ⟨_, tracked, rfl, member⟩
  · rintro ⟨ref, tracked, rfl, member⟩
    exact recalls.origin ref name member tracked

theorem names_settled (recalls : session.Recalls made gone)
    (result : (session.counter.settle session.heap).result = .ok count) :
    (session.report line count).Names made session.counter.ledger session.settled.counter.ledger := by
  obtain ⟨refs, settles⟩ := recalls.counter.settles result
  have leaves := settles.toLeaves
  obtain ⟨collected, rfl, known, names⟩ := recalls.toSound.reported line count leaves
  refine ⟨pairwise_sortNames _, collected, names, settles.nodup, fun pair member => ?_, fun ref => ?_⟩
  · obtain ⟨ref, name⟩ := pair
    have tracked := (leaves.dead ref (List.mem_map_of_mem member)).1
    obtain ⟨other, there, same, named⟩ := (recalls.origin_iff ref.id name).mp (known _ member)
    have here := recalls.counter.ledger.formed.inj other ref (recalls.toTracks.present there)
      (recalls.toTracks.present tracked) same
    exact here ▸ named
  · rw [recalls.tracked_settled leaves]
    constructor
    · exact fun member => ⟨(leaves.dead ref member).1, fun kept => kept.2 member⟩
    · rintro ⟨tracked, left⟩
      exact Classical.byContradiction fun outside => left ⟨tracked, outside⟩

theorem length_made (recalls : session.Recalls made gone) :
    made.length = session.counter.ledger.trackedCount + gone.length := by
  have length := recalls.parts.length_eq
  rw [List.length_map, List.length_append, Ledger.length_tracked] at length
  omega

end Recalls

end Session

/-- After lines that all succeed, the known identities are those of the tracked values, each known by the name
of the line that made it. A settle that follows reports by these names what it takes out, and as many values
have been made as are left or have been reported since the first line. -/
theorem Settings.names_follow_collection (settings : Settings) {script : List ScriptLine} {next : Session}
    (advanced : settings.session.advance script = .ok next) :
    (settings.session.namings script).length = script.countP (·.op.makes) ∧
    ((settings.session.namings script).map Prod.fst).Nodup ∧
    (∀ id name, next.origins[id]? = some name ↔ ∃ ref ∈ next.counter.ledger.tracked,
      ref.id = id ∧ (ref, name) ∈ settings.session.namings script) ∧
    ∀ number after report, (next.step ⟨number, .settle⟩).outcome = .ok (after, some report) →
      report.Names (settings.session.namings script) next.counter.ledger after.counter.ledger ∧
      ∃ reports, settings.session.run (script ++ [⟨number, .settle⟩]) = .ok (reports ++ [report]) ∧
        script.countP (·.op.makes) =
          report.retained + ((reports ++ [report]).map (·.removed.length)).sum := by
  have start := Session.recalls_session settings
  have recalls : next.Recalls (settings.session.namings script) (settings.session.removals script) :=
    start.advance advanced
  have lines := Session.length_namings advanced
  refine ⟨lines, recalls.nodup, recalls.origin_iff, fun number after report done => ?_⟩
  have settled : (next.settle number).outcome = .ok (after, some report) := done
  obtain ⟨count, result, rfl, same⟩ := Session.settle_ok settled
  obtain rfl := Option.some.inj same
  refine ⟨recalls.names_settled result, ?_⟩
  obtain ⟨reports, names, runs⟩ := start.toSound.run_of_advance advanced
  refine ⟨reports, runs [⟨number, .settle⟩] _ ?_, ?_⟩
  · rw [Session.run, done]
    rfl
  · obtain ⟨refs, leaves⟩ := recalls.counter.leaves result
    -- All that has been made is tracked after the settle, or is in one of the reports.
    have made := (recalls.settled result).length_made
    have reported := recalls.toSound.length_removed done
    have retained : (next.report number count).retained =
        next.settled.counter.ledger.trackedCount := by
      rw [Session.counter_settled recalls.toSound]
      exact leaves.retained
    simp only [Option.toList_some, List.map_cons, List.map_nil, List.sum_cons, List.sum_nil] at reported
    rw [← lines, made, retained, List.map_append, List.sum_append, List.length_append, names]
    simp only [List.map_cons, List.map_nil, List.sum_cons, List.sum_nil]
    rw [reported]

/-- An array and a buffer are let go, and their names given to another array and to a scalar. -/
def rebindingScript : List ScriptLine :=
  [⟨1, .newContainer (.list .array) "a"⟩, ⟨2, .push "a" 1⟩, ⟨3, .newBuffer "b" 8⟩, ⟨4, .push "b" 1⟩,
    ⟨5, .pop "a"⟩, ⟨6, .pop "b"⟩, ⟨7, .newContainer (.list .array) "a"⟩, ⟨8, .push "a" 1⟩, ⟨9, .int "b" 7⟩]

theorem Settings.names_follow_collection_rebound :
    ∃ next after report, ({} : Settings).session.advance rebindingScript = .ok next ∧
      (next.step ⟨10, .settle⟩).outcome = .ok (after, some report) ∧ report.removed = ["a", "b"] ∧
      report.Names (({} : Settings).session.namings rebindingScript) next.counter.ledger
        after.counter.ledger ∧
      after.bindings["a"]? = some (.shared (.container 2)) ∧
      after.bindings["b"]? = some (.scalar (.integer 7)) := by
  have replayed : (({} : Settings).session.advance rebindingScript).toOption.any (fun next =>
      (next.step ⟨10, .settle⟩).outcome.toOption.any fun settled =>
        settled.2.any (·.removed = ["a", "b"]) &&
          (settled.1.bindings["a"]? = some (.shared (.container 2)) &&
            settled.1.bindings["b"]? = some (.scalar (.integer 7)))) = true := by decide +kernel
  obtain ⟨next, advanced, settled⟩ := ok_of_any replayed
  obtain ⟨⟨after, found⟩, done, checked⟩ := ok_of_any settled
  simp only [Bool.and_eq_true, decide_eq_true_eq, Option.any_eq_true] at checked
  obtain ⟨⟨report, rfl, removed⟩, bound⟩ := checked
  obtain ⟨_, _, _, settles⟩ := names_follow_collection {} advanced
  exact ⟨next, after, report, advanced, done, removed, (settles 10 after report done).1, bound⟩

end Reclaim
