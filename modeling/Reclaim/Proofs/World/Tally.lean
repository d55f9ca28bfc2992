import Reclaim.Proofs.World.Soundness
import Reclaim.Proofs.World.Unpaired

/-! The edges between two values against the calls that have made and unmade them, in runs of any calls.
Edges are recorded by slot, and a slot can be taken again while edges from the value that had it are still
on record. These are then counted for the value that has it now. -/

set_option autoImplicit false

namespace Reclaim

/-- Edges from an owner to an item since both are tracked: those that were on record already when this
began, and those that calls have added and removed. -/
structure Tally where
  found : Nat := 0
  added : Nat := 0
  removed : Nat := 0
  deriving DecidableEq

namespace Call

def adds (item owner : Ref) : Call → Except CallError Answer → Nat
  | .addEdge child parent, .ok _ =>
    if child.id? = some item.id ∧ parent.id? = some owner.id then 1 else 0
  | _, _ => 0

def removes (item owner : Ref) : Call → Except CallError Answer → Nat
  | .removeEdge child parent, .ok _ =>
    if child.id? = some item.id ∧ parent.id? = some owner.id then 1 else 0
  | _, _ => 0

variable {item owner : Ref} {call : Call} {answer : Except CallError Answer}

theorem trades_of_unheard (unheard : call.counted = false ∨ answer.isOk = false) :
    call.adds item owner answer = 0 ∧ call.removes item owner answer = 0 := by
  cases answer with
  | error error => cases call <;> exact ⟨rfl, rfl⟩
  | ok reply =>
    have silent : call.counted = false := unheard.resolve_right nofun
    cases call with
    | addEdge _ _ | removeEdge _ _ => cases silent
    | _ => exact ⟨rfl, rfl⟩

end Call

namespace Ledger

variable {ledger next : Ledger} {item owner : Ref} {slot ownerSlot : Slot}

def tracks (ledger : Ledger) (item owner : Ref) : Bool :=
  ledger.isTracked (.shared item) && ledger.isTracked (.shared owner)

def edgesUnder (ledger next : Ledger) (item owner : Ref) : Nat :=
  match next.slot? item.id, next.slot? owner.id with
  | some slot, some ownerSlot => ledger.edgesAt slot ownerSlot
  | _, _ => 0

theorem tracks_iff : ledger.tracks item owner ↔
    ∃ slot ownerSlot, ledger.slot? item.id = some slot ∧ ledger.slot? owner.id = some ownerSlot := by
  unfold tracks
  rw [Bool.and_eq_true]
  constructor
  · rintro ⟨tracked, owns⟩
    obtain ⟨slot, known⟩ := Option.isSome_iff_exists.mp tracked
    obtain ⟨ownerSlot, known'⟩ := Option.isSome_iff_exists.mp owns
    exact ⟨slot, ownerSlot, known, known'⟩
  · rintro ⟨slot, ownerSlot, known, known'⟩
    exact ⟨Option.isSome_iff_exists.mpr ⟨slot, known⟩, Option.isSome_iff_exists.mpr ⟨ownerSlot, known'⟩⟩

theorem edgesUnder_eq (known : next.slot? item.id = some slot)
    (owns : next.slot? owner.id = some ownerSlot) :
    ledger.edgesUnder next item owner = ledger.edgesAt slot ownerSlot := by
  rw [edgesUnder, known, owns]

theorem edges_eq_edgesAt (known : ledger.slot? item.id = some slot)
    (owns : ledger.slot? owner.id = some ownerSlot) :
    ledger.edges (.shared item) (.shared owner) = ledger.edgesAt slot ownerSlot :=
  edgesUnder_eq known owns

/-- If all owners on record are in use, no edges are on record in places that come into use. -/
theorem Closed.edgesUnder_eq_zero (closed : ledger.Closed) (valid : ledger.Valid) (after : next.Valid)
    (keeps : ∀ id slot, ledger.slot? id = some slot → next.slot? id = some slot)
    (fresh : ¬ledger.tracks item owner) (tracked : next.tracks item owner) :
    ledger.edgesUnder next item owner = 0 := by
  obtain ⟨slot, ownerSlot, known, owns⟩ := tracks_iff.mp tracked
  rw [edgesUnder_eq known owns]
  cases found : ledger.entries[slot]? with
  | none => exact edgesAt_of_empty found
  | some entry =>
    rw [edgesAt_eq found]
    cases recorded : entry.owners[ownerSlot]? with
    | none => rfl
    | some edges =>
      obtain ⟨ownerEntry, occupied⟩ := closed slot entry ownerSlot edges found recorded
      have here := valid.slot_of_entry found
      have there := valid.slot_of_entry occupied
      -- What has the two places now has had them before.
      rw [after.slot?_inj (keeps entry.item.id slot here) known] at here
      rw [after.slot?_inj (keeps ownerEntry.item.id ownerSlot there) owns] at there
      exact absurd (tracks_iff.mpr ⟨slot, ownerSlot, here, there⟩) fresh

end Ledger

namespace Counter.Hears

variable {counter next : Counter} {heap : Heap} {call : Call} {answer : Except CallError Answer}
  {item owner : Ref} {slot ownerSlot : Slot}

theorem slots (hears : counter.Hears heap call next) (orderly : counter.Orderly) :
    (∀ id slot, counter.ledger.slot? id = some slot → next.ledger.slot? id = some slot) ∨
      ∀ id slot, next.ledger.slot? id = some slot → counter.ledger.slot? id = some slot := by
  obtain ⟨_, rfl⟩ | ⟨_, changes⟩ := hears.changes orderly.valid
  · have sheds : counter.Sheds heap (counter.settle heap) := settle_sheds orderly.valid orderly.nodup
    exact .inr fun _ _ => sheds.ledger.slot?_eq orderly.valid
  · exact .inl fun _ _ => changes.slot?_eq

theorem ok_of_heard (heard : call = .settle ∨ answer.isOk = true) (busy : call ≠ .settle) :
    ∃ reply, answer = .ok reply := by
  cases answer with
  | ok reply => exact ⟨reply, rfl⟩
  | error error => exact (heard.elim busy nofun).elim

/-- Between places in use, a call that is heard changes the edges by those that it adds or removes. -/
theorem edgesAt (hears : counter.Hears heap call next) (orderly : counter.Orderly)
    (heard : call = .settle ∨ answer.isOk = true)
    (known : next.ledger.slot? item.id = some slot)
    (owns : next.ledger.slot? owner.id = some ownerSlot) :
    next.ledger.edgesAt slot ownerSlot + call.removes item owner answer =
      counter.ledger.edgesAt slot ownerSlot + call.adds item owner answer := by
  have after := (hears.orderly orderly).valid
  -- A call with other ends leaves the edges between these two places alone.
  have ends (child parent : Value) : next.ledger.slotOf? child = some slot ∧
      next.ledger.slotOf? parent = some ownerSlot ↔
        child.id? = some item.id ∧ parent.id? = some owner.id :=
    and_congr (after.slotOf?_eq_some_iff known) (after.slotOf?_eq_some_iff owns)
  cases hears with
  | register item => exact orderly.valid.edgesAt_register item
  | addHolds added =>
    obtain ⟨ledger, result, rfl⟩ := addHolds_ok added
    exact orderly.valid.edgesAt_addHolds result
  | removeHold removed =>
    obtain ⟨ledger, result, rfl⟩ := removeHold_ok removed
    exact Ledger.edgesAt_removeHold result
  | @addEdge child parent _ added =>
    obtain ⟨ledger, result, rfl⟩ := addEdge_ok added
    obtain ⟨reply, rfl⟩ := ok_of_heard heard (by simp)
    have posted : ledger.edgesAt slot ownerSlot = _ := orderly.valid.edgesAt_addEdge result
    exact posted.trans (congrArg _ (if_congr (ends child parent) rfl rfl))
  | @removeEdge child parent _ removed =>
    obtain ⟨ledger, result, rfl⟩ := removeEdge_ok removed
    obtain ⟨reply, rfl⟩ := ok_of_heard heard (by simp)
    have posted : counter.ledger.edgesAt slot ownerSlot = _ := orderly.valid.edgesAt_removeEdge result
    exact (posted.trans (congrArg _ (if_congr (ends child parent) rfl rfl))).symm
  | settle =>
    -- Edges between values that a settle leaves tracked are left on record.
    have sheds : counter.Sheds heap (counter.settle heap) := settle_sheds orderly.valid orderly.nodup
    exact sheds.ledger.edgesAt_eq (after.occupied known) (after.occupied owns)

end Counter.Hears

def Tally.Fits (tally : Tally) (ledger : Ledger) (item owner : Ref) : Prop :=
  ledger.tracks item owner →
    ledger.edges (.shared item) (.shared owner) + tally.removed = tally.found + tally.added

namespace World

/-- The tally after one more call. It begins when both values become tracked. -/
def recount (world : World) (item owner : Ref) (tally : Tally) (call : Call) : Tally :=
  let (after, answer) := world.perform call
  let start : Tally :=
    if world.counter.ledger.tracks item owner then tally
    else { found := world.counter.ledger.edgesUnder after.counter.ledger item owner }
  { start with
    added := start.added + call.adds item owner answer
    removed := start.removed + call.removes item owner answer }

def tally (world : World) (item owner : Ref) (start : Tally) : List Call → Tally
  | [] => start
  | call :: rest =>
    (world.perform call).1.tally item owner (world.recount item owner start call) rest

/-- Every settle leaves no edges on record but from owners that are in use. -/
def Tidy (world : World) : List Call → Prop
  | [] => True
  | call :: rest => (call = .settle → (world.perform call).1.counter.ledger.Closed) ∧
    (world.perform call).1.Tidy rest

variable {world : World} {item owner : Ref} {start : Tally} {call : Call} {slot ownerSlot : Slot}

theorem slots_perform (orderly : world.counter.Orderly) (call : Call) :
    (∀ id slot, world.counter.ledger.slot? id = some slot →
      (world.perform call).1.counter.ledger.slot? id = some slot) ∨
    ∀ id slot, (world.perform call).1.counter.ledger.slot? id = some slot →
      world.counter.ledger.slot? id = some slot := by
  obtain ⟨same, _⟩ | ⟨hears, _⟩ := hears_perform world call
  · rw [same]
    exact .inl fun _ _ known => known
  · exact hears.slots orderly

theorem edgesAt_perform (orderly : world.counter.Orderly) (call : Call)
    (known : (world.perform call).1.counter.ledger.slot? item.id = some slot)
    (owns : (world.perform call).1.counter.ledger.slot? owner.id = some ownerSlot) :
    (world.perform call).1.counter.ledger.edgesAt slot ownerSlot +
        call.removes item owner (world.perform call).2 =
      world.counter.ledger.edgesAt slot ownerSlot + call.adds item owner (world.perform call).2 := by
  obtain ⟨same, unheard⟩ | ⟨hears, heard⟩ := hears_perform world call
  · obtain ⟨noneAdded, noneRemoved⟩ := Call.trades_of_unheard unheard
    rw [same, noneAdded, noneRemoved]
  · exact hears.edgesAt orderly heard known owns

theorem slot_perform {id : Ident} {later : Slot} (orderly : world.counter.Orderly)
    (before : world.counter.ledger.slot? id = some slot)
    (after : (world.perform call).1.counter.ledger.slot? id = some later) : slot = later := by
  rcases slots_perform orderly call with keeps | loses
  · exact Option.some.inj ((keeps id slot before).symm.trans after)
  · exact Option.some.inj (before.symm.trans (loses id later after))

theorem fits_recount (orderly : world.counter.Orderly)
    (fits : start.Fits world.counter.ledger item owner) :
    (world.recount item owner start call).Fits (world.perform call).1.counter.ledger item owner := by
  intro tracked
  obtain ⟨slot, ownerSlot, known, owns⟩ := Ledger.tracks_iff.mp tracked
  have posted := edgesAt_perform orderly call known owns
  rw [Ledger.edges_eq_edgesAt known owns]
  unfold recount
  by_cases before : world.counter.ledger.tracks item owner
  · obtain ⟨earlier, ownerEarlier, known', owns'⟩ := Ledger.tracks_iff.mp before
    have counted := fits before
    rw [Ledger.edges_eq_edgesAt known' owns', slot_perform orderly known' known,
      slot_perform orderly owns' owns] at counted
    simp only [if_pos before]
    omega
  · simp only [if_neg before, Ledger.edgesUnder_eq known owns]
    omega

theorem fits_tally (calls : List Call) (orderly : world.counter.Orderly)
    (fits : start.Fits world.counter.ledger item owner) :
    (world.tally item owner start calls).Fits (world.after calls).counter.ledger item owner := by
  induction calls generalizing world start with
  | nil => exact fits
  | cons call rest ih => exact ih (orderly_perform orderly call) (fits_recount orderly fits)

theorem found_recount (orderly : world.counter.Orderly) (closed : world.counter.ledger.Closed)
    (none : world.counter.ledger.tracks item owner → start.found = 0)
    (tracked : (world.perform call).1.counter.ledger.tracks item owner) :
    (world.recount item owner start call).found = 0 := by
  unfold recount
  by_cases before : world.counter.ledger.tracks item owner
  · simp only [if_pos before]
    exact none before
  · simp only [if_neg before]
    rcases slots_perform orderly call with keeps | loses
    · exact closed.edgesUnder_eq_zero orderly.valid (orderly_perform orderly call).valid keeps before tracked
    · obtain ⟨slot, ownerSlot, known, owns⟩ := Ledger.tracks_iff.mp tracked
      exact absurd (Ledger.tracks_iff.mpr ⟨slot, ownerSlot, loses _ _ known, loses _ _ owns⟩) before

theorem closed_perform (orderly : world.counter.Orderly) (closed : world.counter.ledger.Closed)
    (busy : call ≠ .settle) : (world.perform call).1.counter.ledger.Closed := by
  obtain ⟨same, _⟩ | ⟨hears, _⟩ := hears_perform world call
  · exact same ▸ closed
  · obtain ⟨settles, _⟩ | ⟨_, changes⟩ := hears.changes orderly.valid
    · exact absurd settles busy
    · exact closed.changes changes

theorem found_tally {calls : List Call} (orderly : world.counter.Orderly)
    (closed : world.counter.ledger.Closed) (tidy : world.Tidy calls)
    (none : world.counter.ledger.tracks item owner → start.found = 0)
    (tracked : (world.after calls).counter.ledger.tracks item owner) :
    (world.tally item owner start calls).found = 0 := by
  induction calls generalizing world start with
  | nil => exact none tracked
  | cons call rest ih =>
    obtain ⟨settled, tidy⟩ := tidy
    have later : (world.perform call).1.counter.ledger.Closed := by
      by_cases settles : call = .settle
      · exact settled settles
      · exact closed_perform orderly closed settles
    exact ih (orderly_perform orderly call) later tidy (found_recount orderly closed none) tracked

/-- A host that tells the counter of every trade settles tidily. -/
theorem Paired.tidy {owed : List Due} {calls : List Call} (sound : world.Sound owed)
    (paired : world.Paired owed calls) (accepted : ∀ turn ∈ world.play owed calls, turn.result.isOk) :
    world.Tidy calls := by
  induction calls generalizing world owed with
  | nil => trivial
  | cons call rest ih =>
    obtain ⟨allowed, later⟩ := paired
    unfold play at accepted
    split at accepted
    next after answer performed =>
      have kept := sound.perform allowed performed
      have accepted := (List.forall_mem_cons.mp accepted).2
      unfold Tidy
      rw [performed]
      exact ⟨fun _ => kept.ledger.closed, ih kept (later after answer performed) accepted⟩
    next => exact nomatch accepted _ (List.mem_singleton_self _)

/-- Whatever has been done, the edges between two tracked values are those that calls have added since both
are tracked, less those that calls have removed, and those that were on record when this began. There are
none of the last kind if all settles were tidy. -/
theorem edges_eq_tally (settings : Settings) (listener : Listener) (calls : List Call) (item owner : Ref)
    (tracked : ((settings.world listener).after calls).counter.ledger.tracks item owner) :
    ((settings.world listener).after calls).counter.ledger.edges (.shared item) (.shared owner) +
        ((settings.world listener).tally item owner {} calls).removed =
      ((settings.world listener).tally item owner {} calls).found +
        ((settings.world listener).tally item owner {} calls).added ∧
    ((settings.world listener).Tidy calls →
      ((settings.world listener).tally item owner {} calls).found = 0) := by
  have orderly : (settings.world listener).counter.Orderly := orderly_after settings listener []
  have closed : (settings.world listener).counter.ledger.Closed := by
    intro slot entry owner edges found
    simp [Settings.world, Settings.counter] at found
  have untracked : ¬(settings.world listener).counter.ledger.tracks item owner := by
    intro both
    obtain ⟨slot, _, known, _⟩ := Ledger.tracks_iff.mp both
    simp [Settings.world, Settings.counter, Ledger.slot?] at known
  constructor
  · exact fits_tally calls orderly (fun both => absurd both untracked) tracked
  · intro tidy
    exact found_tally orderly closed tidy (fun both => absurd both untracked) tracked

/-- An owner of a held array is collected, and an array that takes its slot becomes an owner in turn. The
former owner has been filled or not. -/
def reuseCalls (filling : List Call) : List Call :=
  let item : Value := .shared (.container 1)
  [.newContainer (.list .array), .newContainer (.list .array), .addHolds item 1] ++ filling ++
    [.addEdge item (.shared (.container 0)), .settle, .newContainer (.list .array),
      .addEdge item (.shared (.container 2))]

/-- If it contains what it is told to own, its edge is forgotten with it. -/
theorem edges_eq_tally_filled :
    let calls := reuseCalls [.push 0 (.shared (.container 1))]
    let world := ({} : Settings).world .absent
    let tally := world.tally (.container 1) (.container 2) {} calls
    (world.after calls).counter.ledger.edges (.shared (.container 1)) (.shared (.container 2)) +
      tally.removed = tally.added := by
  intro calls world tally
  have tidy : world.Tidy calls :=
    ⟨nofun, nofun, nofun, nofun, nofun, fun _ => by decide +kernel, nofun, nofun, trivial⟩
  obtain ⟨counted, fresh⟩ := edges_eq_tally {} .absent calls (.container 1) (.container 2)
    (by decide +kernel)
  rw [fresh tidy, Nat.zero_add] at counted
  exact counted

-- If it is empty, its edge is left on record, and counted for the array that takes its slot.
theorem edges_of_reused_slot :
    let calls := reuseCalls []
    let marking := ({} : Settings).world .absent
    let walking := ({ strategy := .incremental } : Settings).world .absent
    (marking.after calls).counter.ledger.tracks (.container 1) (.container 2) ∧
    marking.tally (.container 1) (.container 2) {} calls = { found := 1, added := 1, removed := 0 } ∧
    (marking.after calls).counter.ledger.edges (.shared (.container 1)) (.shared (.container 2)) = 2 ∧
    (walking.after calls).counter.ledger.tracks (.container 1) (.container 2) ∧
    walking.tally (.container 1) (.container 2) {} calls = { found := 1, added := 1, removed := 0 } ∧
    (walking.after calls).counter.ledger.edges (.shared (.container 1)) (.shared (.container 2)) = 2 := by
  decide +kernel

end World

end Reclaim
