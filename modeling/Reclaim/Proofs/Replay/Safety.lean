import Reclaim.Proofs.Replay.History

/-! No use after collection. Whatever a line can reach, by a name or inside of a container, is tracked and has
never been released, and what a settle has collected stays out of reach and empty. -/

set_option autoImplicit false

namespace Reclaim

namespace Session

variable {session : Session} {made : List (Ref × String)} {gone : List Ref} {owner ref : Ref} {name : String}

/-- A value is tracked, no settle has taken it out, and if it is a buffer it has its bytes. -/
structure Usable (session : Session) (gone : List Ref) (ref : Ref) : Prop where
  tracked : ref ∈ session.counter.ledger.tracked
  kept : ref ∉ gone
  unreleased : ∀ id, ref = .buffer id → (session.heap.buffer id).released = false

/-- A value is released, and nothing leads to it: no name, no container and no slot of the ledger. -/
structure Retired (session : Session) (ref : Ref) : Prop where
  vacant : session.heap.Vacant ref
  untracked : ref ∉ session.counter.ledger.tracked
  unbound : ∀ name : String, session.bindings[name]? ≠ some (.shared ref)
  uncontained : ∀ owner, ¬session.heap.Contains owner ref

namespace Recalls

theorem usable (recalls : session.Recalls made gone) (tracked : ref ∈ session.counter.ledger.tracked) :
    session.Usable gone ref where
  tracked := tracked
  kept taken := recalls.untracked taken tracked
  unreleased id same := by
    refine Bool.eq_false_iff.mpr fun released => ?_
    exact recalls.untracked (recalls.released id released) (same ▸ tracked)

theorem usable_of_bound (recalls : session.Recalls made gone)
    (bound : session.bindings[name]? = some (.shared ref)) : session.Usable gone ref :=
  recalls.usable (recalls.tracked_of_bound bound)

theorem usable_of_contained (recalls : session.Recalls made gone) (contains : session.heap.Contains owner ref) :
    session.Usable gone ref :=
  recalls.usable (recalls.counter.ledger.tracked_of_contains contains).2

theorem retired (recalls : session.Recalls made gone) (taken : ref ∈ gone) : session.Retired ref where
  vacant := recalls.vacant ref taken
  untracked := recalls.untracked taken
  unbound _ bound := (recalls.usable_of_bound bound).kept taken
  uncontained _ contains := (recalls.usable_of_contained contains).kept taken

end Recalls

end Session

/-- After lines that all succeed, what a name is bound to and what a container holds is tracked and has never
been released. What has been collected is out of reach, and whatever lines succeed after that, it is neither
tracked nor bound nor contained again and stays empty. -/
theorem Settings.no_use_after_collection (settings : Settings) {script : List ScriptLine} {next : Session}
    (advanced : settings.session.advance script = .ok next) :
    (∀ (name : String) (ref : Ref), next.bindings[name]? = some (.shared ref) →
      next.Usable (settings.session.removals script) ref) ∧
    (∀ owner item, next.heap.Contains owner item → next.Usable (settings.session.removals script) item) ∧
    ∀ ref ∈ settings.session.removals script, ∀ more last, next.advance more = .ok last → last.Retired ref := by
  have recalls : next.Recalls (settings.session.namings script) (settings.session.removals script) :=
    (Session.recalls_session settings).advance advanced
  refine ⟨fun name ref => recalls.usable_of_bound, fun owner item => recalls.usable_of_contained, ?_⟩
  intro ref taken more last later
  exact (recalls.advance later).retired (List.mem_append_left _ taken)

/-- A map is in two arrays, of which one is collected. -/
def sharingScript : List ScriptLine :=
  [⟨1, .newContainer (.list .array) "a"⟩, ⟨2, .newContainer (.list .array) "b"⟩, ⟨3, .newContainer .map "m"⟩,
    ⟨4, .append "a" "m"⟩, ⟨5, .append "b" "m"⟩, ⟨6, .push "a" 1⟩, ⟨7, .push "b" 1⟩, ⟨8, .pop "b"⟩, ⟨9, .settle⟩]

theorem Settings.no_use_after_collection_sharing :
    ∃ next, ({} : Settings).session.advance sharingScript = .ok next ∧
      next.heap.Contains (.container 0) (.container 2) ∧
      next.Usable [.container 1] (.container 2) ∧
      ∀ more last, next.advance more = .ok last → last.Retired (.container 1) := by
  have replayed : (({} : Settings).session.advance sharingScript).toOption.any (fun next =>
      decide (Value.shared (.container 2) ∈ next.heap.children (.container 0))) = true := by
    decide +kernel
  have collected : ({} : Settings).session.removals sharingScript = [.container 1] := by decide +kernel
  obtain ⟨next, advanced, checked⟩ := ok_of_any replayed
  have listed : Value.shared (.container 2) ∈ next.heap.children (.container 0) := of_decide_eq_true checked
  have contains : next.heap.Contains (.container 0) (.container 2) := listed
  have safe := no_use_after_collection {} advanced
  rw [collected] at safe
  obtain ⟨_, inside, retired⟩ := safe
  exact ⟨next, advanced, contains, inside _ _ contains, retired _ (List.mem_singleton_self _)⟩

end Reclaim
