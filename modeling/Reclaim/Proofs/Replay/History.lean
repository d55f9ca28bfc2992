import Reclaim.Proofs.Replay.Conservation
import Reclaim.Proofs.Replay.Effects

/-! The history of a session: what its lines have made, under which names, and what its settles have taken
out. What is tracked is what has been made and not been taken out, and it is known by the name of the line
that made it. -/

set_option autoImplicit false

namespace Reclaim

def Op.makes : Op → Bool
  | .newContainer .. | .newBuffer .. => true
  | _ => false

namespace Session

variable {session next : Session} {script : List ScriptLine} {step : ScriptLine} {report : Option Report}
  {made : List (Ref × String)} {gone refs : List Ref} {ref : Ref} {count : Nat}

def removal (session : Session) : Op → List Ref
  | .settle => (session.counter.settle session.heap).removed.map Prod.fst
  | _ => []

def namings (session : Session) : List ScriptLine → List (Ref × String)
  | [] => []
  | line :: rest => (session.naming line.op).toList ++
    match (session.step line).outcome with
    | .ok (next, _) => next.namings rest
    | .error _ => []

def removals (session : Session) : List ScriptLine → List Ref
  | [] => []
  | line :: rest => session.removal line.op ++
    match (session.step line).outcome with
    | .ok (next, _) => next.removals rest
    | .error _ => []

theorem namings_cons (done : (session.step step).outcome = .ok (next, report)) :
    session.namings (step :: script) = (session.naming step.op).toList ++ next.namings script := by
  rw [namings, done]

theorem removals_cons (done : (session.step step).outcome = .ok (next, report)) :
    session.removals (step :: script) = session.removal step.op ++ next.removals script := by
  rw [removals, done]

theorem length_namings (advanced : session.advance script = .ok next) :
    (session.namings script).length = script.countP (·.op.makes) := by
  induction script generalizing session with
  | nil => rfl
  | cons step rest ih =>
    obtain ⟨middle, report, done, later⟩ := advance_cons advanced
    have here : (session.naming step.op).toList.length = if step.op.makes then 1 else 0 := by
      cases step.op <;> rfl
    rw [namings_cons done, List.length_append, here, ih later, List.countP_cons, Nat.add_comm]

theorem removal_of_busy (busy : step.op ≠ .settle) : session.removal step.op = [] := by
  unfold removal
  split
  next settles => exact absurd settles busy
  next => rfl

theorem removal_of_leaves
    (leaves : session.counter.Leaves session.heap refs (session.counter.settle session.heap)) :
    session.removal .settle = refs := by
  rw [removal, leaves.removed, List.map_map]
  exact List.map_id _

/-- What has been made is tracked or has been taken out. Known by name is what is tracked, and what has been
taken out is released. -/
structure Recalls (session : Session) (made : List (Ref × String)) (gone : List Ref) : Prop
    extends session.Tracks where
  nodup : (made.map Prod.fst).Nodup
  parts : (made.map Prod.fst).Perm (gone ++ session.counter.ledger.tracked)
  origin : ∀ ref name, (ref, name) ∈ made → ref ∈ session.counter.ledger.tracked →
    session.origins[ref.id]? = some name
  tracked : ∀ id : Ident, session.origins[id]?.isSome →
    ∃ ref ∈ session.counter.ledger.tracked, ref.id = id
  existing : ∀ ref ∈ gone, session.heap.holds (.shared ref)
  vacant : ∀ ref ∈ gone, session.heap.Vacant ref
  released : ∀ id, (session.heap.buffer id).released = true → .buffer id ∈ gone

theorem Tracks.tracked_of_bound {name : String} (tracks : session.Tracks)
    (bound : session.bindings[name]? = some (.shared ref)) : ref ∈ session.counter.ledger.tracked :=
  (tracks.item?_eq_some.mp (tracks.entered name ref bound)).1

theorem Sound.tracked_step (sound : session.Sound) (busy : step.op ≠ .settle)
    (done : (session.step step).outcome = .ok (next, report))
    (tracked : ref ∈ session.counter.ledger.tracked) : ref ∈ next.counter.ledger.tracked := by
  have after := (sound.next done).1
  obtain ⟨_, plan, world, performs⟩ := sound.performs busy done
  obtain ⟨_, carries⟩ := performs.carries
  have keeps := performs.keeps
    (fun world owed => world.Sound owed ∧ ∀ id slot, session.counter.ledger.slot? id = some slot →
      world.counter.ledger.slot? id = some slot)
    (· ≠ .settle)
    (fun world owed call after answer ⟨sound, kept⟩ allowed busy performed =>
      ⟨sound.perform allowed performed, fun id slot known => by
        have stays := World.slot_perform_of_busy sound.ledger.valid busy (kept id slot known)
        rwa [performed] at stays⟩)
    ⟨sound.agrees, fun _ _ known => known⟩ carries.busy
  have counter : next.counter = world.counter := by
    rw [performs.next, counter_label]
    rfl
  obtain ⟨slot, entry, found, rfl⟩ := Ledger.mem_tracked.mp tracked
  have known := keeps.2 _ _ (sound.counter.ledger.valid.slot_of_entry found)
  rw [← counter] at known
  obtain ⟨later, occupied, same⟩ := after.counter.ledger.valid.entry_of_slot? known
  have stays : later.item ∈ next.counter.ledger.tracked := Ledger.tracked_of_entry occupied
  have held := sound.holds_step done (sound.present tracked)
  exact after.counter.ledger.formed.inj later.item entry.item (after.present stays) held same ▸ stays

namespace Recalls

theorem mem_made (recalls : session.Recalls made gone) :
    ref ∈ made.map Prod.fst ↔ ref ∈ gone ∨ ref ∈ session.counter.ledger.tracked := by
  rw [recalls.parts.mem_iff, List.mem_append]

/-- What has been taken out is not tracked again. -/
theorem untracked (recalls : session.Recalls made gone) (member : ref ∈ gone) :
    ref ∉ session.counter.ledger.tracked := by
  have nodup := recalls.parts.nodup_iff.mp recalls.nodup
  exact (List.nodup_append'.mp nodup).2.2 member

theorem present (recalls : session.Recalls made gone) (member : ref ∈ made.map Prod.fst) :
    session.heap.holds (.shared ref) := by
  rcases recalls.mem_made.mp member with taken | tracked
  · exact recalls.existing ref taken
  · exact recalls.toTracks.present tracked

section Line

variable (recalls : session.Recalls made gone) (busy : step.op ≠ .settle)
  (done : (session.step step).outcome = .ok (next, report))

include recalls

theorem older (other : Ref) (name : String) (named : session.naming step.op = some (other, name))
    (held : session.heap.holds (.shared ref)) : other.id ≠ ref.id := by
  have less := recalls.counter.ledger.formed.lt ref held
  rw [naming_id named, nextIdent, recalls.identify]
  exact Nat.ne_of_gt less

include busy done

theorem tracked_line : next.counter.ledger.tracked.Perm
    ((session.naming step.op).toList.map Prod.fst ++ session.counter.ledger.tracked) := by
  have after := (recalls.toTracks.step done).1
  have does := does_step busy done
  refine after.counter.ledger.valid.tracked_perm recalls.counter.ledger.valid ?_ (fun ref member => ?_)
    fun ref => ⟨fun tracked => ⟨recalls.tracked_step busy done tracked, fun member => ?_⟩, ?_⟩
  · cases session.naming step.op <;> simp
  · obtain ⟨⟨_, name⟩, named, rfl⟩ := List.mem_map.mp member
    exact after.tracked_of_bound (does.made (Option.mem_toList.mp named)).2
  · obtain ⟨⟨_, name⟩, named, rfl⟩ := List.mem_map.mp member
    exact recalls.older _ name (Option.mem_toList.mp named) (recalls.toTracks.present tracked) rfl
  · rintro ⟨tracked, unmade⟩
    -- It is known by its identity. So it was before, and no other value has the identity.
    have known := after.known ref tracked
    rw [does.origins_eq fun other name named same => unmade ?_] at known
    · obtain ⟨other, before, same⟩ := recalls.tracked ref.id known
      have stays := recalls.tracked_step busy done before
      exact after.counter.ledger.formed.inj other ref (after.present stays) (after.present tracked) same ▸
        before
    · have new := after.tracked_of_bound (does.made named).2
      have here := after.counter.ledger.formed.inj other ref (after.present new) (after.present tracked) same
      exact List.mem_map.mpr ⟨(other, name), Option.mem_toList.mpr named, here⟩

theorem origin_line {name : String} (member : (ref, name) ∈ made ++ (session.naming step.op).toList)
    (tracked : ref ∈ next.counter.ledger.tracked) : next.origins[ref.id]? = some name := by
  have does := does_step busy done
  rcases List.mem_append.mp member with before | named
  · have held := recalls.present (List.mem_map_of_mem before)
    have older : ∀ other new, session.naming step.op = some (other, new) → other.id ≠ ref.id :=
      fun other new named => recalls.older other new named held
    rw [does.origins_eq older]
    refine recalls.origin ref name before ?_
    rcases List.mem_append.mp ((recalls.tracked_line busy done).mem_iff.mp tracked) with new | old
    · obtain ⟨⟨_, other⟩, named, rfl⟩ := List.mem_map.mp new
      exact absurd rfl (older _ other (Option.mem_toList.mp named))
    · exact old
  · exact (does.made (Option.mem_toList.mp named)).1

theorem tracked_of_known_line {id : Ident} (known : next.origins[id]?.isSome) :
    ∃ ref ∈ next.counter.ledger.tracked, ref.id = id := by
  have does := does_step busy done
  by_cases new : ∃ ref name, session.naming step.op = some (ref, name) ∧ ref.id = id
  · obtain ⟨ref, name, named, same⟩ := new
    exact ⟨ref, (recalls.toTracks.step done).1.tracked_of_bound (does.made named).2, same⟩
  · rw [does.origins_eq fun ref name named same => new ⟨ref, name, named, same⟩] at known
    obtain ⟨ref, before, same⟩ := recalls.tracked id known
    exact ⟨ref, recalls.tracked_step busy done before, same⟩

theorem line : next.Recalls (made ++ (session.naming step.op).toList) gone := by
  have does := does_step busy done
  refine { (recalls.toTracks.step done).1 with
    nodup := ?_, parts := ?_
    origin := fun ref name member tracked => recalls.origin_line busy done member tracked
    tracked := fun id known => recalls.tracked_of_known_line busy done known
    existing := fun ref taken => recalls.holds_step done (recalls.existing ref taken)
    vacant := fun ref taken => ?_
    released := fun id released => recalls.released id (does.released released) }
  · rw [List.map_append]
    refine List.nodup_append'.mpr ⟨recalls.nodup, by cases session.naming step.op <;> simp, ?_⟩
    intro ref before member
    obtain ⟨⟨_, name⟩, named, rfl⟩ := List.mem_map.mp member
    exact recalls.older _ name (Option.mem_toList.mp named) (recalls.present before) rfl
  · rw [List.map_append]
    refine (recalls.parts.append_right _).trans ?_
    rw [List.append_assoc]
    exact (List.perm_append_comm.trans (recalls.tracked_line busy done).symm).append_left gone
  · refine Heap.SameAt.vacant (does.sameAt (fun other name named same => ?_) fun name bound => ?_)
      (recalls.vacant ref taken)
    · exact recalls.older other name named (recalls.existing ref taken) (congrArg Ref.id same)
    · exact recalls.untracked taken (recalls.tracked_of_bound bound)

end Line

/-- A settle takes out what is dead, and its names are forgotten. -/
theorem settled (recalls : session.Recalls made gone)
    (result : (session.counter.settle session.heap).result = .ok count) :
    session.settled.Recalls made (gone ++ session.removal .settle) := by
  obtain ⟨refs, settles⟩ := recalls.counter.settles result
  have leaves := settles.toLeaves
  have after : session.settled.Tracks :=
    ⟨recalls.toSound.settled result, known_settled recalls.toTracks settles⟩
  have kept : ∀ ref, ref ∈ session.settled.counter.ledger.tracked ↔
      ref ∈ session.counter.ledger.tracked ∧ ref ∉ refs := fun _ => recalls.tracked_settled leaves
  have heap := recalls.released_settled leaves
  rw [removal_of_leaves leaves]
  refine { after with
    nodup := recalls.nodup
    parts := ?_, origin := fun ref name member tracked => ?_, tracked := fun id known => ?_
    existing := fun ref member => ?_, vacant := fun ref member => ?_, released := fun id released => ?_ }
  -- What the settle takes out goes over from the values that are left to those that are gone.
  · rw [List.append_assoc]
    refine recalls.parts.trans (List.Perm.append_left gone ?_)
    exact recalls.counter.ledger.valid.tracked_perm after.counter.ledger.valid settles.nodup
      (fun ref member => (leaves.dead ref member).1) kept
  · rw [recalls.origins_settled leaves tracked]
    exact recalls.origin ref name member ((kept ref).mp tracked).1
  · rw [recalls.named.settled.origins] at known
    split at known
    next => cases known
    next outside =>
      obtain ⟨ref, before, rfl⟩ := recalls.tracked id known
      exact ⟨ref, (kept ref).mpr ⟨before, mt (recalls.mem_collected leaves before).mpr outside⟩, rfl⟩
  · rw [recalls.holds_settled leaves]
    rcases List.mem_append.mp member with earlier | now
    · exact recalls.existing ref earlier
    · exact recalls.toTracks.present (leaves.dead ref now).1
  · rw [heap]
    by_cases now : ref ∈ refs
    -- It may have been released before, and a buffer that was has no bytes.
    · have drained : session.heap.Drained := fun id released =>
        (recalls.vacant _ (recalls.released id released)).2
      exact drained.vacant_releaseAll now
    · have earlier := (List.mem_append.mp member).resolve_right now
      exact (Heap.sameAt_releaseAll now).vacant (recalls.vacant ref earlier)
  · rw [heap, Heap.buffer_releaseAll] at released
    split at released
    next now => exact List.mem_append_right gone now
    next => exact List.mem_append_left refs (recalls.released id released)

theorem follow (recalls : session.Recalls made gone)
    (done : (session.step step).outcome = .ok (next, report)) :
    next.Recalls (made ++ (session.naming step.op).toList) (gone ++ session.removal step.op) := by
  by_cases busy : step.op = .settle
  · rw [Session.step, busy] at done
    obtain ⟨count, result, rfl, _⟩ := settle_ok done
    rw [busy, show session.naming .settle = none from rfl, Option.toList_none, List.append_nil]
    exact recalls.settled result
  · rw [removal_of_busy busy, List.append_nil]
    exact recalls.line busy done

theorem advance (recalls : session.Recalls made gone) (advanced : session.advance script = .ok next) :
    next.Recalls (made ++ session.namings script) (gone ++ session.removals script) := by
  -- Along the lines: all that they make and all that they take out is remembered.
  induction script generalizing session made gone with
  | nil =>
    cases advanced
    simpa [namings, removals] using recalls
  | cons step rest ih =>
    obtain ⟨middle, report, done, later⟩ := advance_cons advanced
    rw [namings_cons done, removals_cons done, ← List.append_assoc, ← List.append_assoc]
    exact ih (recalls.follow done) later

end Recalls

theorem recalls_session (settings : Settings) : settings.session.Recalls [] [] :=
  { tracks_session settings with
    nodup := List.nodup_nil
    parts := by simp [Settings.session, Settings.counter, Ledger.tracked]
    origin := fun _ _ member => nomatch member
    tracked := fun id known => by simp [Settings.session] at known
    existing := fun _ member => nomatch member
    vacant := fun _ member => nomatch member
    released := fun id released => by simp [Settings.session, Heap.buffer] at released }

end Session

end Reclaim
