import Reclaim.Proofs.Identity.Lines
import Reclaim.Proofs.Replay.History

/-! Replays do not depend on identities. Whatever identities an allocator chooses for new values, those of
values that have been collected and dropped among them, the reports are the same, and so is the fault but for
the identities in it. -/

set_option autoImplicit false

namespace Reclaim

namespace Session

variable {move : Ident → Ident} {known : Ref → Prop} {session other : Session} {line : Nat}

namespace Renames

variable (renames : session.Renames move known other)

include renames

theorem named (named : session.Named) : other.Named := by
  intro name ref bound
  rw [renames.bindings] at bound
  obtain ⟨value, found, same⟩ := Option.map_eq_some_iff.mp bound
  cases value with
  | scalar atom => cases same
  | shared own =>
    cases same
    rw [Ref.id_rename, renames.origins own (renames.bound name _ found)]
    exact named name own found

theorem naming (op : Op) :
    other.naming op = (session.naming op).map (Prod.map (·.rename move) id) := by
  cases op with
  | newContainer kind name => exact congrArg (fun own => some (Ref.container own, name)) renames.nextIdent
  | newBuffer name size => exact congrArg (fun own => some (Ref.buffer own, name)) renames.nextIdent
  | _ => rfl

theorem forget {next next' : Session} {ids ids' : List Ident} (forgets : session.Forgets ids next)
    (forgets' : other.Forgets ids' next')
    (same : ∀ ref, known ref → (move ref.id ∈ ids' ↔ ref.id ∈ ids)) : next.Renames move known next' := by
  -- A known value is forgotten on one side exactly if it is on the other.
  have kept : ∀ value : Value, value.Among known →
      ((∀ own ∈ ids', (value.rename move).id? ≠ some own) ↔ ∀ own ∈ ids, value.id? ≠ some own) := by
    intro value among
    cases value with
    | scalar atom => exact ⟨fun _ _ _ => nofun, fun _ _ _ => nofun⟩
    | shared ref =>
      have moved : ((Value.shared ref).rename move).id? = some (move ref.id) := Value.id?_rename
      have own : (Value.shared ref).id? = some ref.id := rfl
      simp only [moved, own, ne_eq, Option.some.injEq, List.forall_mem_ne, same ref among]
  obtain ⟨heap, counter, budget, _, created, _⟩ := World.mk.inj forgets.world
  obtain ⟨heap', counter', budget', _, created', _⟩ := World.mk.inj forgets'.world
  refine ⟨?_, ?_, fun name => ?_, fun name value found => ?_, fun ref here => ?_, ?_, ?_, ?_⟩
  · rw [counter, counter']
    exact renames.counter
  · rw [heap, heap']
    exact renames.heap
  · apply Option.ext
    intro value
    rw [forgets'.bindings, renames.bindings]
    simp only [Option.map_eq_some_iff, forgets.bindings]
    constructor
    · rintro ⟨⟨own, found, rfl⟩, outside⟩
      exact ⟨own, ⟨found, (kept own (renames.bound name own found)).mp outside⟩, rfl⟩
    · rintro ⟨own, ⟨found, outside⟩, rfl⟩
      exact ⟨⟨own, found, rfl⟩, (kept own (renames.bound name own found)).mpr outside⟩
  · exact renames.bound name value ((forgets.bindings name value).mp found).1
  · rw [forgets'.origins, forgets.origins, renames.origins ref here]
    simp only [same ref here]
  · rw [budget, budget', renames.budget]
  · rw [created, created', renames.created]
  · rw [forgets.identify, forgets'.identify, renames.identify]

theorem check : other.budget.check other.counter.ledger = session.budget.check session.counter.ledger := by
  unfold Budget.check
  rw [renames.budget, renames.counter.ledger.total, renames.counter.ledger.trackedCount]

theorem tracked_known {ref : Ref} (tracked : ref ∈ session.counter.ledger.tracked) : known ref := by
  obtain ⟨slot, entry, found, rfl⟩ := Ledger.mem_tracked.mp tracked
  exact renames.counter.ledger.within slot entry found

/-- Between lines, what matters is what is tracked. -/
theorem narrow (tracks : session.Tracks) :
    session.Renames move (· ∈ session.counter.ledger.tracked) other :=
  { renames with
    counter := { renames.counter with
      ledger := { renames.counter.ledger with within := fun slot entry => Ledger.tracked_of_entry } }
    heap :=
      { container := fun own tracked => renames.heap.container own (renames.tracked_known tracked)
        closed := fun own tracked child member => Value.among_iff.mpr fun ref same => by
          subst same
          have contains : session.heap.Contains (.container own) ref := member
          exact (tracks.counter.ledger.tracked_of_contains contains).2 }
    bound := fun name value found => Value.among_iff.mpr fun ref same =>
      tracks.tracked_of_bound (same ▸ found)
    origins := fun ref tracked => renames.origins ref (renames.tracked_known tracked) }

variable (apart : Apart move known)

include apart

theorem settlement : (session.counter.settle session.heap).Renames move known
    (other.counter.settle other.heap) :=
  renames.counter.settle renames.heap apart

theorem collected : other.collected = session.collected.map move := by
  have settlement := renames.settlement apart
  rw [Session.collected, settlement.removed, List.map_map, Session.collected, List.map_map]
  exact List.map_congr_left fun pair _ => Ref.id_rename pair.1

theorem known_of_collected {own : Ident} (member : own ∈ session.collected) :
    ∃ ref, known ref ∧ ref.id = own := by
  obtain ⟨pair, removed, rfl⟩ := List.mem_map.mp member
  exact ⟨pair.1, (renames.settlement apart).known pair removed, rfl⟩

theorem mem_collected {ref : Ref} (here : known ref) :
    move ref.id ∈ other.collected ↔ ref.id ∈ session.collected := by
  rw [renames.collected apart]
  refine ⟨fun member => ?_, List.mem_map_of_mem⟩
  obtain ⟨own, inside, same⟩ := List.mem_map.mp member
  obtain ⟨gone, there, rfl⟩ := renames.known_of_collected apart inside
  exact apart _ _ there here same ▸ inside

theorem settled (named : session.Named) : session.settled.Renames move known other.settled := by
  have settlement := renames.settlement apart
  have swept : Renames move known
      { session with
        heap := (session.counter.settle session.heap).heap
        counter := (session.counter.settle session.heap).counter }
      { other with
        heap := (other.counter.settle other.heap).heap
        counter := (other.counter.settle other.heap).counter } :=
    { renames with counter := settlement.counter, heap := settlement.heap }
  exact swept.forget named.settled (renames.named named).settled fun ref => renames.mem_collected apart

theorem report (count : Nat) : other.report line count = session.report line count := by
  have settlement := renames.settlement apart
  unfold Session.report
  rw [settlement.counter.stats, renames.collected apart, List.filterMap_map]
  have names : session.collected.filterMap ((other.origins[·]?) ∘ move) =
      session.collected.filterMap (session.origins[·]?) := by
    refine List.filterMap_congr fun own member => ?_
    obtain ⟨ref, here, rfl⟩ := renames.known_of_collected apart member
    exact renames.origins ref here
  rw [names]

theorem settle (named : session.Named) : Echoes (Fault.rename move) (Matches move known)
    (session.settle line).outcome (other.settle line).outcome := by
  have settled := renames.settled apart named
  obtain ⟨error, failed, failed'⟩ | ⟨count, _, done, done', rfl⟩ := (renames.settlement apart).result.cases
  · rw [settle_refused failed, settle_refused failed']
    exact rfl
  · rw [settle_done done, settle_done done', settled.check, renames.report apart]
    cases session.settled.budget.check session.settled.counter.ledger with
    | error error => exact rfl
    | ok _ => exact ⟨rfl, settled⟩

end Renames

/-- The shared values that exist: they are tracked, bound to a name, or held in a container that exists. -/
inductive Present (session : Session) : Ref → Prop where
  | tracked {ref : Ref} : ref ∈ session.counter.ledger.tracked → session.Present ref
  | bound {ref : Ref} {name : String} : session.bindings[name]? = some (.shared ref) → session.Present ref
  | held {ref owner : Ref} : session.Present owner → .shared ref ∈ session.heap.children owner →
      session.Present ref

/-- Along a script, no line makes a value under the identity of one that exists. -/
def Allocates (session : Session) : List ScriptLine → Prop
  | [] => True
  | line :: rest => ∀ next report, (session.step line).outcome = .ok (next, report) →
      (∀ made name, session.naming line.op = some (made, name) →
        ∀ ref, session.Present ref → ref.id ≠ made.id) ∧
      next.Allocates rest

theorem Sound.holds_present {ref : Ref} (sound : session.Sound) (present : session.Present ref) :
    session.heap.holds (.shared ref) := by
  induction present with
  | tracked here => exact sound.agrees.ledger.present _ here
  | bound here => exact sound.bound _ _ here
  | held _ member _ => exact sound.agrees.ledger.formed.children_held _ _ member

theorem Sound.allocates {script : List ScriptLine} (sound : session.Sound) : session.Allocates script := by
  induction script generalizing session with
  | nil => trivial
  | cons line rest ih =>
    intro next report done
    refine ⟨fun made name named ref present => ?_, ih (sound.next done).1⟩
    have less := sound.agrees.ledger.formed.lt ref (sound.holds_present present)
    rw [naming_id named, nextIdent, sound.identify]
    exact Nat.ne_of_lt less

section Run

variable {op : Op} {step : ScriptLine} {script : List ScriptLine}
  (renames : session.Renames move (· ∈ session.counter.ledger.tracked) other)
  (apart : Apart move (· ∈ session.counter.ledger.tracked))

include renames apart

/-- What a line makes is apart from what is tracked if the identity it gets is of no value that exists. -/
theorem apart_grown (fresh : ∀ made name, other.naming op = some (made, name) →
      ∀ ref, other.Present ref → ref.id ≠ made.id) :
    Apart move (session.Grown (· ∈ session.counter.ledger.tracked) op) := by
  have new : ∀ made name ref, session.naming op = some (made, name) →
      ref ∈ session.counter.ledger.tracked → move ref.id ≠ move made.id := by
    intro made name ref named tracked
    have present : other.Present (ref.rename move) :=
      .tracked (renames.counter.ledger.tracked ▸ List.mem_map_of_mem tracked)
    have named' : other.naming op = some (made.rename move, name) := by
      rw [renames.naming, named]
      rfl
    have unlike := fresh _ name named' _ present
    rwa [Ref.id_rename, Ref.id_rename] at unlike
  rintro first second (⟨name, named⟩ | tracked) (⟨name', named'⟩ | tracked') same
  · cases named.symm.trans named'
    rfl
  · exact absurd same.symm (new _ _ _ named tracked')
  · exact absurd same (new _ _ _ named' tracked)
  · exact apart _ _ tracked tracked' same

theorem step_matches (tracks : session.Tracks) (allocates : other.Allocates (step :: script)) :
    Echoes (Fault.rename move) (Matches move (session.Grown (· ∈ session.counter.ledger.tracked) step.op))
      (session.step step).outcome (other.step step).outcome := by
  obtain ⟨line, op⟩ := step
  by_cases busy : op = .settle
  · subst busy
    rw [grown_of_idle rfl]
    exact renames.settle apart tracks.named
  · exact renames.busy apart
      (fun (next, report) done => apart_grown renames apart (allocates next report done).1) busy

/-- A run under other identities fails as the run does, under these, or returns the same reports. -/
theorem run_renamed (tracks : session.Tracks) (allocates : other.Allocates script) :
    (session.run script).mapError (Fault.rename move) = other.run script := by
  induction script generalizing session other with
  | nil => rfl
  | cons step rest ih =>
    unfold Session.run
    obtain ⟨fault, failed, failed'⟩ | ⟨⟨next, report⟩, ⟨next', _⟩, done, done', rfl, after⟩ :=
      (step_matches renames apart tracks allocates).cases
    · rw [failed, failed']
      rfl
    -- What matters grows by the value that the line makes, and then shrinks to what is tracked.
    · obtain ⟨fresh, allocates⟩ := allocates next' _ done'
      have tracks := (tracks.step done).1
      have apart := (apart_grown renames apart fresh).mono fun ref => after.tracked_known
      have reports := ih (after.narrow tracks) apart tracks allocates
      rw [done, done']
      show (next.run rest >>= _).mapError _ = (next'.run rest >>= _)
      rw [← reports]
      cases next.run rest <;> rfl

end Run

end Session

def Settings.allocating (settings : Settings) (allocator : Nat → Ident) : Session :=
  { settings.session with identify := allocator }

namespace Session

variable {session : Session}

theorem renames_allocating (settings : Settings) (allocator : Nat → Ident) :
    settings.session.Renames allocator (· ∈ settings.session.counter.ledger.tracked)
      (settings.allocating allocator) := by
  have none : ∀ ref, ref ∉ settings.session.counter.ledger.tracked := by
    intro ref tracked
    simp [Settings.session, Settings.counter, Ledger.tracked] at tracked
  have empty : Ledger.Copies allocator {} {} :=
    ⟨Std.ExtTreeMap.ext_getElem? fun slot => by simp, rfl, rfl, rfl, rfl⟩
  exact {
    counter :=
      { strategy := rfl, eager := rfl, components := rfl, stats := rfl
        ledger :=
          { empty with
            within := fun slot entry found => by simp [Settings.session, Settings.counter] at found
            valid := Ledger.valid_empty
            valid' := Ledger.valid_empty } }
    heap := ⟨fun own tracked => absurd tracked (none _), fun own tracked => absurd tracked (none _)⟩
    bindings := fun name => by simp [Settings.allocating, Settings.session]
    bound := fun name value found => by simp [Settings.session] at found
    origins := fun ref tracked => absurd tracked (none ref)
    budget := rfl
    created := rfl
    identify := rfl }

/-- The reports of a script, or the fault that ends it but for the identities in it, are the same under any
two allocators. -/
theorem run_independent (settings : Settings) (script : List ScriptLine) (first second : Nat → Ident)
    (allocates : (settings.allocating first).Allocates script)
    (allocates' : (settings.allocating second).Allocates script) :
    ((settings.allocating first).run script).mapError Fault.anonymous =
      ((settings.allocating second).run script).mapError Fault.anonymous := by
  have canonical : ∀ allocator : Nat → Ident, (settings.allocating allocator).Allocates script →
      ((settings.allocating allocator).run script).mapError Fault.anonymous =
        (settings.session.run script).mapError Fault.anonymous := by
    intro allocator allocates
    have apart : Apart allocator (· ∈ settings.session.counter.ledger.tracked) := by
      intro ref other tracked
      simp [Settings.session, Settings.counter, Ledger.tracked] at tracked
    rw [← run_renamed (renames_allocating settings allocator) apart (tracks_session settings) allocates]
    cases settings.session.run script with
    | error fault => exact congrArg Except.error fault.anonymous_rename
    | ok reports => rfl
  rw [canonical first allocates, canonical second allocates']

def anchors (session : Session) : List Ref :=
  session.counter.ledger.tracked ++ session.bindings.toList.filterMap (·.2.ref?)

/-- Whether all that anchors contain are anchors, and an identity is of none of them. -/
def spares (session : Session) (own : Ident) : Bool :=
  session.anchors.all fun ref => ref.id != own &&
    (session.heap.children ref).all fun child => child.ref?.all session.anchors.contains

theorem spares_present {own : Ident} (spares : session.spares own) {ref : Ref}
    (present : session.Present ref) : ref ∈ session.anchors ∧ ref.id ≠ own := by
  have all := List.all_eq_true.mp spares
  have anchored : ref ∈ session.anchors := by
    induction present with
    | tracked here => exact List.mem_append_left _ here
    | @bound ref name here =>
      refine List.mem_append_right _ (List.mem_filterMap.mpr ⟨(name, .shared ref), ?_, rfl⟩)
      exact Std.ExtTreeMap.mem_toList_iff_getElem?_eq_some.mpr here
    | held _ member owner =>
      have children := (Bool.and_eq_true_iff.mp (all _ owner)).2
      simpa using List.all_eq_true.mp children _ member
  exact ⟨anchored, by simpa using (Bool.and_eq_true_iff.mp (all ref anchored)).1⟩

def checksAllocator (session : Session) : List ScriptLine → Bool
  | [] => true
  | line :: rest =>
    match (session.step line).outcome with
    | .error _ => true
    | .ok (next, _) =>
      (session.naming line.op).all (fun (made, _) => session.spares made.id) && next.checksAllocator rest

theorem allocates_of_check {script : List ScriptLine} (checked : session.checksAllocator script) :
    session.Allocates script := by
  induction script generalizing session with
  | nil => trivial
  | cons line rest ih =>
    intro next report done
    rw [checksAllocator, done] at checked
    obtain ⟨spare, checked⟩ := Bool.and_eq_true_iff.mp checked
    refine ⟨fun made name named ref present => ?_, ih checked⟩
    rw [named] at spare
    exact (spares_present spare present).2

/-- An array and a child of it are collected, and a buffer and an array follow in their place. -/
def recyclingScript : List ScriptLine :=
  [⟨1, .newContainer (.list .array) "a"⟩, ⟨2, .newContainer .map "b"⟩, ⟨3, .append "a" "b"⟩,
    ⟨4, .put "b" "k" "a"⟩, ⟨5, .settle⟩, ⟨6, .newBuffer "c" 4⟩, ⟨7, .newContainer (.list .array) "a"⟩,
    ⟨8, .append "a" "c"⟩, ⟨9, .push "a" 1⟩, ⟨10, .settle⟩]

/-- Once with identities that are used again, and once more with a last line that fails with one. -/
theorem run_independent_recycling :
    ((({} : Settings).allocating (· % 2)).run recyclingScript).mapError Fault.anonymous =
        ((({} : Settings).allocating id).run recyclingScript).mapError Fault.anonymous ∧
      (({} : Settings).allocating (· % 2)).run (recyclingScript ++ [⟨11, .pop "c"⟩]) =
        .error (.failed 11 (.ledger (.holdUnderflow 0))) ∧
      (({} : Settings).allocating id).run (recyclingScript ++ [⟨11, .pop "c"⟩]) =
        .error (.failed 11 (.ledger (.holdUnderflow 2))) :=
  ⟨run_independent {} recyclingScript (· % 2) id (allocates_of_check (by decide +kernel))
    (sound_session {}).allocates, by decide +kernel, by decide +kernel⟩

end Session

end Reclaim
