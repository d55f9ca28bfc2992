import Reclaim.Proofs.Ledger.Book

/-! The recorded edges after a counting operation, place by place. To track a value or to change holds
leaves them alone, and an edge that is added or removed counts once, in the places of its two ends. -/

set_option autoImplicit false

namespace Reclaim

namespace Ledger

variable {ledger next : Ledger} {ref : Ref} {item parent : Value} {count : Nat} {entry : Entry}
  {slot owner place : Slot} {id : Ident} {change : Entry → Entry}

def ownersAt? (ledger : Ledger) (slot : Slot) : Option (SlotMap Nat) :=
  ledger.entries[slot]?.map (·.owners)

theorem isSome_ownersAt? : (ledger.ownersAt? slot).isSome = ledger.entries[slot]?.isSome :=
  Option.isSome_map

theorem edgesAt_eq_ownersAt? :
    ledger.edgesAt slot owner = ((ledger.ownersAt? slot).bind (·[owner]?)).getD 0 := by
  unfold edgesAt ownersAt?
  cases ledger.entries[slot]? <;> rfl

theorem edgesAt_congr (same : next.ownersAt? slot = ledger.ownersAt? slot) :
    next.edgesAt slot owner = ledger.edgesAt slot owner := by
  rw [edgesAt_eq_ownersAt?, edgesAt_eq_ownersAt?, same]

theorem ownersAt?_update (ledger : Ledger) (slot : Slot) (change : Entry → Entry)
    (owners : ∀ entry, (change entry).owners = entry.owners) (other : Slot) :
    (ledger.update slot change).ownersAt? other = ledger.ownersAt? other := by
  unfold ownersAt?
  rw [getElem?_update]
  split
  · rw [Option.map_map]
    exact congrArg (Option.map · _) (funext owners)
  · rfl

theorem ownersAt?_addHolds (added : ledger.addHolds item count = .ok next) :
    (item.ref? = none ∧ ∀ slot, next.ownersAt? slot = ledger.ownersAt? slot) ∨
    ∃ ref, item = .shared ref ∧ next.slotOf? item = some (ledger.track ref).2 ∧
      ∀ slot, next.ownersAt? slot = (ledger.track ref).1.ownersAt? slot := by
  obtain ⟨_, rfl, rfl⟩ | ⟨ref, held, rfl, rfl⟩ := addHolds_ok added
  · exact .inl ⟨rfl, fun _ => rfl⟩
  · refine .inr ⟨ref, rfl, slot?_track ledger ref, ?_⟩
    exact ownersAt?_update (ledger.track ref).1 (ledger.track ref).2
      (fun entry => { entry with held }) (fun _ => rfl)

theorem ownersAt?_removeHold (removed : ledger.removeHold item = .ok next) (slot : Slot) :
    next.ownersAt? slot = ledger.ownersAt? slot := by
  obtain ⟨_, _, rfl⟩ | ⟨_, dropping, _, _, _, rfl⟩ := removeHold_ok removed
  · rfl
  · have dropped := ownersAt?_update { ledger with total := ledger.total - 1 } dropping
      (fun entry => { entry with held := entry.held - 1 }) (fun _ => rfl) slot
    simp only
    split <;> exact dropped

theorem edgesAt_update (found : ledger.entries[place]? = some entry) :
    (ledger.update place change).edgesAt slot owner =
      if place = slot then (change entry).owners[owner]?.getD 0 else ledger.edgesAt slot owner := by
  unfold edgesAt
  rw [getElem?_update]
  split
  next here => rw [← here, found, Option.map_some, Option.bind_some]
  next => rfl

theorem edgesAt_eq (found : ledger.entries[slot]? = some entry) :
    ledger.edgesAt slot owner = entry.owners[owner]?.getD 0 := by
  rw [edgesAt, found, Option.bind_some]

theorem edgesAt_of_empty (empty : ledger.entries[slot]? = none) : ledger.edgesAt slot owner = 0 := by
  rw [edgesAt, empty]
  rfl

theorem edgesAt_removeHold (removed : ledger.removeHold item = .ok next) :
    next.edgesAt slot owner = ledger.edgesAt slot owner :=
  edgesAt_congr (ownersAt?_removeHold removed slot)

namespace Valid

theorem edgesAt_insert (valid : ledger.Valid) :
    (ledger.insert ref).edgesAt slot owner = ledger.edgesAt slot owner := by
  by_cases here : ledger.nextSlot = slot
  · subst here
    have found : (ledger.insert ref).entries[ledger.nextSlot]? = some { item := ref } := by
      rw [getElem?_insert, if_pos rfl]
    rw [edgesAt_eq found, edgesAt_of_empty valid.nextSlot_empty]
    simp
  · rw [edgesAt, getElem?_insert, if_neg here]
    rfl

theorem edgesAt_track (valid : ledger.Valid) :
    (ledger.track ref).1.edgesAt slot owner = ledger.edgesAt slot owner := by
  unfold track
  cases ledger.slot? ref.id with
  | some slot => rfl
  | none => exact valid.edgesAt_insert

theorem edgesAt_trackOwner (valid : ledger.Valid) :
    (ledger.trackOwner ref).1.edgesAt slot owner = ledger.edgesAt slot owner := by
  unfold trackOwner
  cases ledger.slot? ref.id with
  | some slot => rfl
  | none => exact valid.edgesAt_insert

theorem edgesAt_register (valid : ledger.Valid) (item : Value) :
    (ledger.register item).edgesAt slot owner = ledger.edgesAt slot owner := by
  cases item with
  | scalar atom => rfl
  | shared ref => exact valid.edgesAt_track

theorem edgesAt_addHolds (valid : ledger.Valid) (added : ledger.addHolds item count = .ok next) :
    next.edgesAt slot owner = ledger.edgesAt slot owner := by
  obtain ⟨_, same⟩ | ⟨ref, _, _, same⟩ := ownersAt?_addHolds added
  · exact edgesAt_congr (same slot)
  · exact (edgesAt_congr (same slot)).trans valid.edgesAt_track

theorem slotOf?_eq_some_iff (valid : ledger.Valid) (known : ledger.slot? id = some slot) :
    ledger.slotOf? item = some slot ↔ item.id? = some id := by
  unfold slotOf?
  rw [Option.bind_eq_some_iff]
  constructor
  · rintro ⟨other, identified, found⟩
    rw [identified, valid.slot?_inj found known]
  · intro identified
    exact ⟨id, identified, known⟩

theorem owners_withEdge : (entry.owners.insert place (entry.owners[place]?.getD 0 + 1))[owner]?.getD 0 =
    entry.owners[owner]?.getD 0 + if place = owner then 1 else 0 := by
  rw [getElem?_insert_key]
  split
  next here =>
    subst here
    rfl
  next => rfl

theorem edgesAt_link (valid : ledger.Valid) (linked : ledger.link item place = .ok next) :
    next.edgesAt slot owner = ledger.edgesAt slot owner +
      if next.slotOf? item = some slot ∧ place = owner then 1 else 0 := by
  obtain ⟨atom, rfl, rfl⟩ | ⟨ref, rfl, rfl⟩ := link_ok linked
  · rw [if_neg (fun ends => nomatch ends.1)]
    rfl
  · let tracked := (ledger.track ref).1
    let child := (ledger.track ref).2
    have located : tracked.slot? ref.id = some child := slot?_track ledger ref
    obtain ⟨entry, found, _⟩ := (valid.changes (changes_track ledger ref)).entry_of_slot? located
    let change (entry : Entry) : Entry :=
      { entry with owners := entry.owners.insert place (tracked.edgesAt child place + 1) }
    have recorded : (tracked.update child change).edgesAt slot owner =
        ledger.edgesAt slot owner + if tracked.slot? ref.id = some slot ∧ place = owner then 1 else 0 := by
      rw [edgesAt_update found, ← valid.edgesAt_track]
      simp only [located, Option.some.injEq]
      by_cases here : child = slot
      · subst here
        simp only [if_true, true_and, change]
        rw [edgesAt_eq found, edgesAt_eq found, owners_withEdge]
      · rw [if_neg here, if_neg (fun ends => here ends.1)]
        rfl
    exact recorded

theorem edgesAt_addEdge (valid : ledger.Valid) (added : ledger.addEdge item parent = .ok next) :
    next.edgesAt slot owner = ledger.edgesAt slot owner +
      if next.slotOf? item = some slot ∧ next.slotOf? parent = some owner then 1 else 0 := by
  obtain ⟨id, rfl, linked⟩ := addEdge_ok added
  have tracked := valid.changes (changes_trackOwner ledger (.container id))
  have known := slot?_trackOwner ledger (.container id)
  have owns : next.slotOf? (.shared (.container id)) = some (ledger.trackOwner (.container id)).2 :=
    (changes_link tracked (tracked.occupied known) linked).slot?_eq known
  rw [tracked.edgesAt_link linked, valid.edgesAt_trackOwner]
  simp only [owns, Option.some.injEq]

theorem owners_withoutEdge_add (valid : ledger.Valid) (found : ledger.entries[slot]? = some entry)
    (recorded : entry.owners[place]?.isSome) : entry.owners[owner]?.getD 0 =
      (Entry.withoutEdge entry place).owners[owner]?.getD 0 + if place = owner then 1 else 0 := by
  rw [owners_withoutEdge]
  split
  next here =>
    subst here
    obtain ⟨edges, counted⟩ := Option.isSome_iff_exists.mp recorded
    have positive := valid.edges_pos slot entry place edges found counted
    rw [counted]
    match edges, positive with
    | 1, _ | edges + 2, _ => rfl
  next => rfl

theorem edgesAt_removeEdge (valid : ledger.Valid) (removed : ledger.removeEdge item parent = .ok next) :
    ledger.edgesAt slot owner = next.edgesAt slot owner +
      if next.slotOf? item = some slot ∧ next.slotOf? parent = some owner then 1 else 0 := by
  obtain ⟨atom, rfl, rfl⟩ | ⟨ref, id, place, child, entry, rfl, rfl, owns, found, recorded, rfl⟩ :=
    removeEdge_ok removed
  · rw [if_neg (fun ends => nomatch ends.1)]
    rfl
  · obtain ⟨known, found⟩ := find?_eq_some.mp found
    let lowered := { ledger with total := ledger.total - 1 }
    have present : lowered.entries[child]? = some entry := found
    have taken : ledger.edgesAt slot owner =
        (lowered.update child (Entry.withoutEdge · place)).edgesAt slot owner +
          if ledger.slot? ref.id = some slot ∧ ledger.slot? id = some owner then 1 else 0 := by
      simp only [known, owns, Option.some.injEq]
      rw [edgesAt_update present]
      by_cases here : child = slot
      · subst here
        simp only [if_true, true_and]
        rw [edgesAt_eq found, valid.owners_withoutEdge_add found recorded]
      · rw [if_neg here, if_neg (fun ends => here ends.1)]
        rfl
    simp only
    split <;> exact taken

end Valid

end Ledger

end Reclaim
