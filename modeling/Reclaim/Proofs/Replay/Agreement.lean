import Reclaim.Proofs.Replay.Soundness

/-! Sessions that cannot be told apart by what they report. They bind the same names to the same
values, and their worlds agree; a line has the same outcome in both, unless it is a settle that only
one of them runs a pass for. -/

set_option autoImplicit false

namespace Reclaim

theorem sortNames_congr {first second : List String} (perm : first.Perm second) :
    sortNames first = sortNames second := by
  have sorted : (sortNames first).Perm (sortNames second) :=
    (sortNames_perm first).trans (perm.trans (sortNames_perm second).symm)
  exact sorted.eq_of_pairwise (fun _ _ _ _ => String.le_antisymm) (pairwise_sortNames first)
    (pairwise_sortNames second)

namespace Session

variable {first second : Session} {line : Nat} {op : Op}

structure Agrees (first second : Session) : Prop where
  worlds : first.world.Agrees second.world
  bindings : first.bindings = second.bindings
  origins : first.origins = second.origins

def SameOutcome (first second : Session × Option Report) : Prop :=
  first.1.Agrees second.1 ∧ first.2 = second.2

namespace Agrees

theorem heap (agrees : first.Agrees second) : first.heap.Same second.heap := agrees.worlds.heap

theorem lookup_eq (agrees : first.Agrees second) (name : String) :
    first.lookup line name = second.lookup line name := by
  unfold lookup
  rw [agrees.bindings]

theorem container_eq (agrees : first.Agrees second) (name : String) (expected : Expected) :
    first.container line name expected = second.container line name expected := by
  unfold Session.container
  simp only [agrees.lookup_eq, agrees.heap.kindName_eq, agrees.heap.container_eq]

theorem plan_eq (agrees : first.Agrees second) : first.plan line op = second.plan line op := by
  have created : first.created = second.created := agrees.worlds.created
  cases op <;> simp only [plan, agrees.lookup_eq, agrees.container_eq, created]

theorem label {named : Option (String × Value)} (agrees : first.Agrees second) :
    (first.label named).Agrees (second.label named) where
  worlds := by
    rw [world_label, world_label]
    exact agrees.worlds
  bindings := by
    unfold Session.label
    split <;> simp only [bind, agrees.bindings]
  origins := by
    unfold Session.label
    split <;> simp only [bind, agrees.origins]

theorem carry {plan : Plan} {result result' : Except Fault Session} (agrees : first.Agrees second)
    (sound : first.Sound) (sound' : second.Sound) (carries : first.Carries line op plan result)
    (carries' : second.Carries line op plan result') : Alike Agrees result result' := by
  rw [carries.result, carries'.result]
  have performed := agrees.worlds.performAll sound.agrees sound'.agrees carries.paired carries.busy
  refine Alike.map (Alike.map (performed.mapError _) fun world other same => ?_) fun _ _ => label
  exact ⟨{ same with budget := agrees.worlds.budget }, agrees.bindings, agrees.origins⟩

/-- A line that is not a settle has the same outcome. -/
theorem step {step : ScriptLine} (agrees : first.Agrees second) (sound : first.Sound)
    (sound' : second.Sound) (busy : step.op ≠ .settle) :
    Alike SameOutcome (first.step step).outcome (second.step step).outcome := by
  obtain ⟨result, outcome, follows⟩ := sound.follows_step busy
  obtain ⟨result', outcome', follows'⟩ := sound'.follows_step busy
  rw [outcome, outcome']
  have alike : Alike Agrees result result' := by
    rw [agrees.plan_eq] at follows
    cases planned : second.plan step.number step.op with
    | error fault =>
      rw [planned] at follows follows'
      rw [show result = .error fault from follows, show result' = .error fault from follows']
      exact rfl
    | ok plan =>
      rw [planned] at follows follows'
      exact agrees.carry sound sound' follows follows'
  exact alike.map fun _ _ same => ⟨same, rfl⟩

theorem settle (agrees : first.Agrees second) (sound : first.Sound) (sound' : second.Sound)
    (settled : (first.counter.settle first.heap).Agrees (second.counter.settle second.heap)) :
    Alike SameOutcome (first.settle line).outcome (second.settle line).outcome := by
  cases result : (first.counter.settle first.heap).result with
  | error error =>
    rw [settle_refused result, settle_refused (settled.result ▸ result)]
    exact rfl
  | ok count =>
    have result' := settled.result ▸ result
    have kept := (sound.counter.settle result).ledger.valid
    have kept' := (sound'.counter.settle result').ledger.valid
    have forgets := sound.named.settled
    have forgets' := sound'.named.settled
    -- The strategies may take values out in different orders, which the sorted names do not show.
    have collected : first.collected.Perm second.collected := (settled.removed count result).map _
    have ids : ∀ id, id ∈ first.collected ↔ id ∈ second.collected := fun id => collected.mem_iff
    have worlds : first.settled.world.Agrees second.settled.world := by
      rw [forgets.world, forgets'.world]
      exact { agrees.worlds with book := settled.book count result, heap := settled.heap count result }
    have same : first.settled.Agrees second.settled := by
      refine ⟨worlds, Std.ExtTreeMap.ext_getElem? fun name => Option.ext fun value => ?_,
        Std.ExtTreeMap.ext_getElem? fun id => ?_⟩
      · rw [forgets.bindings, forgets'.bindings]
        simp only [agrees.bindings, ids]
      · rw [forgets.origins, forgets'.origins]
        simp only [agrees.origins, ids]
    have budget : first.budget = second.budget := agrees.worlds.budget
    have report : first.report line count = second.report line count := by
      obtain ⟨_, leaves⟩ := sound.counter.leaves result
      obtain ⟨_, leaves'⟩ := sound'.counter.leaves result'
      have names := sortNames_congr (collected.filterMap (second.origins[·]?))
      have retained := kept.trackedCount_congr kept' (settled.book count result)
      simp only [Session.report, leaves.retained, leaves'.retained, retained, agrees.origins, names]
    rw [sound.settle_of_ok result, sound'.settle_of_ok result', budget, report,
      kept.check_congr kept' (settled.book count result)]
    cases second.budget.check (second.counter.settle second.heap).counter.ledger with
    | error error => exact rfl
    | ok => exact ⟨same, rfl⟩

end Agrees

end Session

end Reclaim
