import Reclaim.Proofs.Ledger.Edges

/-! What can become of a counting operation: with which error it is refused and exactly when, and what is
different after it has succeeded. Nothing is presumed of the references that the ledger has been told of. -/

set_option autoImplicit false

namespace Reclaim

namespace Ledger

variable {ledger next : Ledger} {ref : Ref} {item owner : Value} {entry : Entry} {slot place : Slot}
  {id : Ident} {total : Nat} {change : Entry → Entry}

def itemAt? (ledger : Ledger) (slot : Slot) : Option Ref :=
  ledger.entries[slot]?.map (·.item)

structure SamePlaces (ledger next : Ledger) : Prop where
  items : ∀ slot, next.itemAt? slot = ledger.itemAt? slot
  index : next.index = ledger.index
  free : next.free = ledger.free
  bound : next.bound = ledger.bound

structure DropsHold (ledger next : Ledger) (item : Value) : Prop where
  places : ledger.SamePlaces next
  total : ledger.total = next.total + 1
  held : ∀ slot, ledger.heldAt slot = next.heldAt slot + if ledger.slotOf? item = some slot then 1 else 0
  edges : ∀ slot place, next.edgesAt slot place = ledger.edgesAt slot place
  pending : ∀ slot, slot ∈ next.pending ↔
    slot ∈ ledger.pending ∨ ledger.slotOf? item = some slot ∧ next.heldAt slot = 0

structure DropsEdge (ledger next : Ledger) (item owner : Value) : Prop where
  places : ledger.SamePlaces next
  total : ledger.total = next.total + 1
  held : ∀ slot, next.heldAt slot = ledger.heldAt slot
  edges : ∀ slot place, ledger.edgesAt slot place = next.edgesAt slot place +
    if ledger.slotOf? item = some slot ∧ ledger.slotOf? owner = some place then 1 else 0
  pending : ∀ slot, slot ∈ next.pending ↔
    slot ∈ ledger.pending ∨ ledger.slotOf? item = some slot ∧ next.heldAt slot = 0

structure AddsEdge (ledger next : Ledger) (item owner : Value) : Prop where
  total : next.total = ledger.total + 1
  held : ∀ slot, next.heldAt slot = ledger.heldAt slot
  edges : ∀ slot place, next.edgesAt slot place = ledger.edgesAt slot place +
    if next.slotOf? item = some slot ∧ next.slotOf? owner = some place then 1 else 0
  pending : ∀ slot, slot ∈ next.pending ↔
    slot ∈ ledger.pending ∨ ledger.isTracked owner = false ∧ next.slotOf? owner = some slot
  keeps : ∀ id slot, ledger.slot? id = some slot → next.slot? id = some slot
  tracked : ∀ id, (next.slot? id).isSome ↔
    (ledger.slot? id).isSome ∨ item.id? = some id ∨ owner.id? = some id

def Unheld (ledger : Ledger) (item : Value) : Prop :=
  item.isShared = true ∧ (ledger.isTracked item = false ∨ ledger.held item = 0)

def Unrecorded (ledger : Ledger) (item owner : Value) : Prop :=
  item.isShared = true ∧
    (ledger.isTracked item = false ∨ ledger.isTracked owner = false ∨ ledger.edges item owner = 0)

theorem heldAt_eq (found : ledger.entries[slot]? = some entry) : ledger.heldAt slot = entry.held := by
  rw [heldAt, found]
  rfl

theorem heldAt_update (found : ledger.entries[place]? = some entry) :
    (ledger.update place change).heldAt slot =
      if place = slot then (change entry).held else ledger.heldAt slot := by
  unfold heldAt
  rw [getElem?_update]
  split
  next here =>
    rw [← here, found]
    rfl
  next => rfl

theorem heldAt_update_same (same : ∀ entry, (change entry).held = entry.held) :
    (ledger.update place change).heldAt slot = ledger.heldAt slot := by
  unfold heldAt
  rw [getElem?_update]
  split
  · rw [Option.map_map]
    exact congrArg (Option.getD · 0) (congrArg (Option.map · _) (funext same))
  · rfl

theorem samePlaces_update {pending : NodeSet} (same : ∀ entry, (change entry).item = entry.item) :
    ledger.SamePlaces { ledger.update slot change with total, pending } where
  items other := by
    show ((ledger.update slot change).entries[other]?.map (·.item)) = ledger.entries[other]?.map (·.item)
    rw [getElem?_update]
    split
    · rw [Option.map_map]
      exact congrArg (Option.map · _) (funext same)
    · rfl
  index := rfl
  free := rfl
  bound := rfl

theorem slotOf?_shared : ledger.slotOf? (.shared ref) = ledger.slot? ref.id := rfl

theorem tracked_of_slot? (known : ledger.slot? ref.id = some slot) : ledger.isTracked (.shared ref) = true := by
  rw [isTracked, slotOf?_shared, known, Option.isSome_some]

theorem untracked_of_slot? (unknown : ledger.slot? ref.id = none) : ledger.isTracked (.shared ref) = false := by
  rw [isTracked, slotOf?_shared, unknown, Option.isSome_none]

theorem located_of_find? (found : ledger.find? id = some (slot, entry)) :
    ledger.slot? id = some slot ∧ ledger.entries[slot]? = some entry :=
  find?_eq_some.mp found

theorem Valid.find?_of_slot? (valid : ledger.Valid) (known : ledger.slot? id = some slot) :
    ∃ entry, ledger.find? id = some (slot, entry) := by
  obtain ⟨entry, found, _⟩ := valid.entry_of_slot? known
  exact ⟨entry, find?_eq_some.mpr ⟨known, found⟩⟩

theorem held_of_find? (found : ledger.find? ref.id = some (slot, entry)) :
    ledger.held (.shared ref) = entry.held := by
  obtain ⟨known, present⟩ := located_of_find? found
  rw [held, slotOf?_shared, known, Option.map_some, heldAt_eq present, Option.getD_some]

theorem edges_of_find? (found : ledger.find? ref.id = some (slot, entry))
    (owns : ledger.slot? id = some place) :
    ledger.edges (.shared ref) (.shared (.container id)) = entry.owners[place]?.getD 0 := by
  obtain ⟨known, present⟩ := located_of_find? found
  have placed : ledger.slotOf? (.shared (.container id)) = some place := owns
  rw [edges, slotOf?_shared, known, placed]
  exact edgesAt_eq present

theorem withoutEdge_held (entry : Entry) (owner : Slot) : (Entry.withoutEdge entry owner).held = entry.held := by
  unfold Entry.withoutEdge
  split <;> rfl

theorem withoutEdge_item (entry : Entry) (owner : Slot) : (Entry.withoutEdge entry owner).item = entry.item := by
  unfold Entry.withoutEdge
  split <;> rfl

/-- A reference to a scalar is counted in the total only. -/
theorem dropsHold_scalar {atom : Scalar} (counted : 0 < ledger.total) :
    ledger.DropsHold { ledger with total := ledger.total - 1 } (.scalar atom) where
  places := ⟨fun _ => rfl, rfl, rfl, rfl⟩
  total := (Nat.sub_add_cancel counted).symm
  held slot := by
    rw [if_neg (fun located => nomatch located)]
    rfl
  edges _ _ := rfl
  pending slot := (or_iff_left (fun last => nomatch last.1)).symm

theorem dropsEdge_scalar {atom : Scalar} (counted : 0 < ledger.total) :
    ledger.DropsEdge { ledger with total := ledger.total - 1 } (.scalar atom) owner where
  places := ⟨fun _ => rfl, rfl, rfl, rfl⟩
  total := (Nat.sub_add_cancel counted).symm
  held _ := rfl
  edges slot place := by
    rw [if_neg (fun located => nomatch located.1)]
    rfl
  pending slot := (or_iff_left (fun last => nomatch last.1)).symm

theorem ite_markPending {condition : Prop} [Decidable condition] :
    (if condition then ledger.markPending slot else ledger) =
      { ledger with pending := if condition then ledger.pending.insert slot else ledger.pending } := by
  split <;> rfl

theorem mem_ite_insert {condition : Prop} [Decidable condition] {pending : NodeSet} :
    place ∈ (if condition then pending.insert slot else pending) ↔ place ∈ pending ∨ slot = place ∧ condition := by
  split
  next marks => rw [NodeSet.mem_insert_iff, or_comm, and_iff_left marks, @eq_comm _ slot]
  next keeps => rw [or_iff_left (fun marks => keeps marks.2)]

theorem dropsHold_shared (found : ledger.find? ref.id = some (slot, entry)) (held : 0 < entry.held)
    (counted : 0 < ledger.total) :
    let dropped := { ledger with total := ledger.total - 1 }.update slot fun entry =>
      { entry with held := entry.held - 1 }
    ledger.DropsHold (if entry.held = 1 then dropped.markPending slot else dropped) (.shared ref) := by
  intro dropped
  obtain ⟨known, present⟩ := located_of_find? found
  have lowered (other : Slot) :
      dropped.heldAt other = if slot = other then entry.held - 1 else ledger.heldAt other :=
    show (ledger.update slot _).heldAt other = _ from heldAt_update present
  rw [ite_markPending]
  exact {
    places := samePlaces_update fun _ => rfl
    total := (Nat.sub_add_cancel counted).symm
    held := fun other => by
      show ledger.heldAt other = dropped.heldAt other + _
      rw [lowered, slotOf?_shared, known]
      simp only [Option.some.injEq]
      split
      next here =>
        rw [← here, heldAt_eq present]
        omega
      next => rfl
    edges := fun other place => by
      show dropped.edgesAt other place = ledger.edgesAt other place
      exact edgesAt_congr (ownersAt?_update ledger slot (fun entry => { entry with held := entry.held - 1 })
        (fun _ => rfl) other)
    pending := fun other => by
      show other ∈ (if entry.held = 1 then ledger.pending.insert slot else ledger.pending) ↔
        other ∈ ledger.pending ∨ _ ∧ dropped.heldAt other = 0
      rw [mem_ite_insert, slotOf?_shared, known, Option.some.injEq, lowered]
      refine or_congr_right (and_congr_right fun here => ?_)
      rw [if_pos here]
      omega }

theorem removeHold_cases (valid : ledger.Valid) (item : Value) :
    (ledger.Unheld item ∧ ∃ id, item.id? = some id ∧ ledger.removeHold item = .error (.holdUnderflow id)) ∨
    ¬ledger.Unheld item ∧ (ledger.total = 0 ∧ ledger.removeHold item = .error .totalUnderflow ∨
      0 < ledger.total ∧ ∃ next, ledger.removeHold item = .ok next ∧ ledger.DropsHold next item) := by
  have emptied := Nat.eq_zero_or_pos ledger.total
  unfold removeHold
  cases item with
  | scalar atom =>
    refine .inr ⟨(fun unheld => nomatch unheld.1), emptied.imp (fun empty => ⟨empty, ?_⟩) fun counted => ⟨counted, ?_⟩⟩
    · simp only [Value.ref?_scalar, empty, if_true]
    · simp only [Value.ref?_scalar, Nat.ne_of_gt counted, if_false]
      exact ⟨_, rfl, dropsHold_scalar counted⟩
  | shared ref =>
    simp only [Value.ref?_shared]
    cases known : ledger.slot? ref.id with
    | none =>
      have missing : ledger.find? ref.id = none := by rw [find?, known, Option.bind_none]
      simp only [missing]
      exact .inl ⟨⟨rfl, .inl (untracked_of_slot? known)⟩, ref.id, rfl, rfl⟩
    | some slot =>
      obtain ⟨entry, found⟩ := valid.find?_of_slot? known
      have held := held_of_find? found
      simp only [found]
      by_cases unheld : entry.held = 0
      · simp only [unheld, if_true]
        exact .inl ⟨⟨rfl, .inr (held.trans unheld)⟩, ref.id, rfl, rfl⟩
      · refine .inr ⟨?_, emptied.imp (fun empty => ⟨empty, ?_⟩) fun counted => ⟨counted, ?_⟩⟩
        · rintro ⟨_, untracked | none⟩
          · exact Bool.false_ne_true (untracked.symm.trans (tracked_of_slot? known))
          · exact unheld (held.symm.trans none)
        · simp only [unheld, empty, if_true, if_false]
        · simp only [unheld, Nat.ne_of_gt counted, if_false]
          exact ⟨_, rfl, dropsHold_shared found (Nat.pos_of_ne_zero unheld) counted⟩

section

variable (valid : ledger.Valid)
include valid

theorem removeHold_holdUnderflow_iff : ledger.removeHold item = .error (.holdUnderflow id) ↔
    item.id? = some id ∧ ledger.Unheld item := by
  obtain ⟨unheld, other, named, failed⟩ | ⟨held, ⟨empty, failed⟩ | ⟨counted, next, removed, _⟩⟩ :=
    removeHold_cases valid item
  · simp [failed, named, unheld]
  · simp [failed, held]
  · simp [removed, held]

theorem removeHold_totalUnderflow_iff : ledger.removeHold item = .error .totalUnderflow ↔
    ¬ledger.Unheld item ∧ ledger.total = 0 := by
  obtain ⟨unheld, id, named, failed⟩ | ⟨held, ⟨empty, failed⟩ | ⟨counted, next, removed, _⟩⟩ :=
    removeHold_cases valid item
  · simp [failed, unheld]
  · simp [failed, held, empty]
  · simp [removed, Nat.ne_of_gt counted]

theorem exists_removeHold_iff : (∃ next, ledger.removeHold item = .ok next) ↔
    ¬ledger.Unheld item ∧ 0 < ledger.total := by
  obtain ⟨unheld, id, named, failed⟩ | ⟨held, ⟨empty, failed⟩ | ⟨counted, next, removed, _⟩⟩ :=
    removeHold_cases valid item
  · simp [failed, unheld]
  · simp [failed, empty]
  · simp [removed, held, counted]

theorem dropsHold_of_ok (removed : ledger.removeHold item = .ok next) : ledger.DropsHold next item := by
  obtain ⟨_, _, _, failed⟩ | ⟨_, ⟨_, failed⟩ | ⟨_, after, done, drops⟩⟩ := removeHold_cases valid item
  · cases removed.symm.trans failed
  · cases removed.symm.trans failed
  · cases removed.symm.trans done
    exact drops

end

theorem dropsEdge_of_counted (valid : ledger.Valid) (counted : 0 < ledger.total)
    (removed : ledger.removeEdge item owner = .ok next) : ledger.DropsEdge next item owner := by
  have edges (slot place : Slot) : ledger.edgesAt slot place = next.edgesAt slot place +
      if next.slotOf? item = some slot ∧ next.slotOf? owner = some place then 1 else 0 :=
    valid.edgesAt_removeEdge removed
  obtain ⟨atom, rfl, rfl⟩ | ⟨ref, id, place, slot, entry, rfl, rfl, _, found, _, rfl⟩ := removeEdge_ok removed
  · exact dropsEdge_scalar counted
  · obtain ⟨known, present⟩ := located_of_find? found
    let dropped := ledger.update slot (Entry.withoutEdge · place)
    have same (other : Slot) : dropped.heldAt other = ledger.heldAt other :=
      heldAt_update_same fun entry => withoutEdge_held entry place
    simp only [ite_markPending] at edges ⊢
    exact {
      places := samePlaces_update fun entry => withoutEdge_item entry place
      total := (Nat.sub_add_cancel counted).symm
      held := same
      edges := edges
      pending := fun other => by
        show other ∈ (if entry.held = 0 then ledger.pending.insert slot else ledger.pending) ↔
          other ∈ ledger.pending ∨ _ ∧ dropped.heldAt other = 0
        rw [mem_ite_insert, slotOf?_shared, known, Option.some.injEq, same]
        refine or_congr_right (and_congr_right fun here => ?_)
        rw [← here, heldAt_eq present] }

theorem container?_cases (owner : Value) :
    owner.canOwn = false ∧ owner.container? = none ∨ ∃ id, owner = .shared (.container id) := by
  cases owner with
  | scalar atom => exact .inl ⟨rfl, rfl⟩
  | shared ref =>
    cases ref with
    | container id => exact .inr ⟨id, rfl⟩
    | buffer id => exact .inl ⟨rfl, rfl⟩

theorem removeEdge_cases (valid : ledger.Valid) (item owner : Value) :
    (owner.canOwn = false ∧ ledger.removeEdge item owner = .error (.notContainer owner)) ∨
    owner.canOwn = true ∧
      ((ledger.Unrecorded item owner ∧ ∃ child id, item.id? = some child ∧ owner.id? = some id ∧
          ledger.removeEdge item owner = .error (.missingEdge child id)) ∨
        (item.isShared = false ∧ ledger.isTracked owner = false ∧ ∃ id, owner.id? = some id ∧
          ledger.removeEdge item owner = .error (.untrackedOwner id)) ∨
        ¬ledger.Unrecorded item owner ∧ (item.isShared = false → ledger.isTracked owner = true) ∧
          (ledger.total = 0 ∧ ledger.removeEdge item owner = .error .totalUnderflow ∨
            0 < ledger.total ∧ ∃ next, ledger.removeEdge item owner = .ok next)) := by
  -- The owner is looked at before the record of the edge, and the total after it.
  have emptied := Nat.eq_zero_or_pos ledger.total
  unfold removeEdge
  obtain ⟨unable, none⟩ | ⟨id, rfl⟩ := container?_cases owner
  · rw [none]
    exact .inl ⟨unable, rfl⟩
  · refine .inr ⟨rfl, ?_⟩
    simp only [Value.container?]
    cases item with
    | scalar atom =>
      refine .inr ?_
      simp only [Value.ref?_scalar]
      cases owns : ledger.slot? id with
      | none => exact .inl ⟨rfl, untracked_of_slot? owns, id, rfl, rfl⟩
      | some place =>
        refine .inr ⟨(fun missing => Bool.false_ne_true missing.1), fun _ => tracked_of_slot? owns,
          emptied.imp (fun empty => ⟨empty, ?_⟩) fun counted => ⟨counted, ?_⟩⟩
        · simp only [Option.isNone_some, Bool.false_eq_true, empty, if_true, if_false]
        · simp only [Option.isNone_some, Bool.false_eq_true, Nat.ne_of_gt counted, if_false]
          exact ⟨_, rfl⟩
    | shared ref =>
      simp only [Value.ref?_shared]
      cases owns : ledger.slot? id with
      | none => exact .inl ⟨⟨rfl, .inr (.inl (untracked_of_slot? owns))⟩, ref.id, id, rfl, rfl, rfl⟩
      | some place =>
        cases known : ledger.slot? ref.id with
        | none =>
          have missing : ledger.find? ref.id = none := by rw [find?, known, Option.bind_none]
          rw [missing]
          exact .inl ⟨⟨rfl, .inl (untracked_of_slot? known)⟩, ref.id, id, rfl, rfl, rfl⟩
        | some slot =>
          obtain ⟨entry, found⟩ := valid.find?_of_slot? known
          have edges := edges_of_find? found owns
          simp only [found]
          cases recorded : entry.owners[place]? with
          | none =>
            rw [recorded] at edges
            exact .inl ⟨⟨rfl, .inr (.inr edges)⟩, ref.id, id, rfl, rfl, rfl⟩
          | some count =>
            have positive := valid.edges_pos slot entry place count (located_of_find? found).2 recorded
            rw [recorded, Option.getD_some] at edges
            refine .inr (.inr ⟨?_, (fun scalar => absurd scalar.symm Bool.false_ne_true),
              emptied.imp (fun empty => ⟨empty, ?_⟩) fun counted => ⟨counted, ?_⟩⟩)
            · rintro ⟨_, unknown | unowned | unrecorded⟩
              · exact Bool.false_ne_true (unknown.symm.trans (tracked_of_slot? known))
              · exact Bool.false_ne_true (unowned.symm.trans (tracked_of_slot? owns))
              · omega
            · simp only [Option.isNone_some, Bool.false_eq_true, empty, if_true, if_false]
            · simp only [Option.isNone_some, Bool.false_eq_true, Nat.ne_of_gt counted, if_false]
              exact ⟨_, rfl⟩

section

variable (valid : ledger.Valid)
include valid

theorem removeEdge_notContainer_iff {value : Value} :
    ledger.removeEdge item owner = .error (.notContainer value) ↔ owner.canOwn = false ∧ value = owner := by
  obtain ⟨leaf, failed⟩ | ⟨owns, ⟨_, _, _, _, _, failed⟩ | ⟨_, _, _, _, failed⟩ |
    ⟨_, _, ⟨_, failed⟩ | ⟨_, _, removed⟩⟩⟩ := removeEdge_cases valid item owner
  · simp [failed, leaf, eq_comm]
  · simp [failed, owns]
  · simp [failed, owns]
  · simp [failed, owns]
  · simp [removed, owns]

theorem removeEdge_missingEdge_iff {child : Ident} :
    ledger.removeEdge item owner = .error (.missingEdge child id) ↔
      owner.canOwn = true ∧ item.id? = some child ∧ owner.id? = some id ∧ ledger.Unrecorded item owner := by
  obtain ⟨leaf, failed⟩ | ⟨owns, ⟨missing, _, _, named, ownerNamed, failed⟩ | ⟨scalar, _, _, _, failed⟩ |
    ⟨recorded, _, ⟨_, failed⟩ | ⟨_, _, removed⟩⟩⟩ := removeEdge_cases valid item owner
  · simp [failed, leaf]
  · simp [failed, owns, missing, named, ownerNamed]
  · simp [failed, Unrecorded, scalar]
  · simp [failed, recorded]
  · simp [removed, recorded]

theorem removeEdge_untrackedOwner_iff : ledger.removeEdge item owner = .error (.untrackedOwner id) ↔
    owner.canOwn = true ∧ item.isShared = false ∧ owner.id? = some id ∧ ledger.isTracked owner = false := by
  obtain ⟨leaf, failed⟩ | ⟨owns, ⟨missing, _, _, _, _, failed⟩ | ⟨scalar, unknown, _, ownerNamed, failed⟩ |
    ⟨_, known, ⟨_, failed⟩ | ⟨_, _, removed⟩⟩⟩ := removeEdge_cases valid item owner
  · simp [failed, leaf]
  · simp [failed, missing.1]
  · simp [failed, owns, scalar, unknown, ownerNamed]
  · simp +contextual [failed, known]
  · simp +contextual [removed, known]

theorem removeEdge_totalUnderflow_iff : ledger.removeEdge item owner = .error .totalUnderflow ↔
    owner.canOwn = true ∧ ¬ledger.Unrecorded item owner ∧
      (item.isShared = false → ledger.isTracked owner = true) ∧ ledger.total = 0 := by
  obtain ⟨leaf, failed⟩ | ⟨owns, ⟨missing, _, _, _, _, failed⟩ | ⟨scalar, unknown, _, _, failed⟩ |
    ⟨recorded, known, ⟨empty, failed⟩ | ⟨counted, _, removed⟩⟩⟩ := removeEdge_cases valid item owner
  · simp [failed, leaf]
  · simp [failed, missing]
  · simp [failed, scalar, unknown]
  · exact iff_of_true failed ⟨owns, recorded, known, empty⟩
  · simp [removed, Nat.ne_of_gt counted]

theorem exists_removeEdge_iff : (∃ next, ledger.removeEdge item owner = .ok next) ↔
    owner.canOwn = true ∧ ¬ledger.Unrecorded item owner ∧
      (item.isShared = false → ledger.isTracked owner = true) ∧ 0 < ledger.total := by
  obtain ⟨leaf, failed⟩ | ⟨owns, ⟨missing, _, _, _, _, failed⟩ | ⟨scalar, unknown, _, _, failed⟩ |
    ⟨recorded, known, ⟨empty, failed⟩ | ⟨counted, removed⟩⟩⟩ := removeEdge_cases valid item owner
  · simp [failed, leaf]
  · simp [failed, missing]
  · simp [failed, scalar, unknown]
  · simp [failed, empty]
  · exact iff_of_true removed ⟨owns, recorded, known, counted⟩

theorem dropsEdge_of_ok (removed : ledger.removeEdge item owner = .ok next) :
    ledger.DropsEdge next item owner :=
  dropsEdge_of_counted valid ((exists_removeEdge_iff valid).mp ⟨next, removed⟩).2.2.2 removed

end

theorem heldAt_insert (valid : ledger.Valid) : (ledger.insert ref).heldAt slot = ledger.heldAt slot := by
  unfold heldAt
  rw [getElem?_insert]
  split
  next here =>
    rw [← here, valid.nextSlot_empty]
    rfl
  next => rfl

theorem heldAt_track (valid : ledger.Valid) : (ledger.track ref).1.heldAt slot = ledger.heldAt slot := by
  unfold track
  cases ledger.slot? ref.id with
  | some slot => rfl
  | none => exact heldAt_insert valid

theorem heldAt_trackOwner (valid : ledger.Valid) :
    (ledger.trackOwner ref).1.heldAt slot = ledger.heldAt slot := by
  unfold trackOwner
  cases ledger.slot? ref.id with
  | some slot => rfl
  | none => exact heldAt_insert valid

theorem isSome_slot?_insert : ((ledger.insert ref).slot? id).isSome ↔
    (ledger.slot? id).isSome ∨ ref.id = id := by
  rw [slot?_insert]
  split
  next here => simp [here]
  next apart => simp [apart]

theorem isSome_slot?_track : ((ledger.track ref).1.slot? id).isSome ↔
    (ledger.slot? id).isSome ∨ ref.id = id := by
  unfold track
  cases known : ledger.slot? ref.id with
  | none => exact isSome_slot?_insert
  | some slot => exact (or_iff_left_of_imp fun here => here ▸ (by rw [known]; rfl)).symm

theorem isSome_slot?_trackOwner : ((ledger.trackOwner ref).1.slot? id).isSome ↔
    (ledger.slot? id).isSome ∨ ref.id = id := by
  unfold trackOwner
  cases known : ledger.slot? ref.id with
  | none => exact isSome_slot?_insert
  | some slot => exact (or_iff_left_of_imp fun here => here ▸ (by rw [known]; rfl)).symm

theorem pending_track : (ledger.track ref).1.pending = ledger.pending := by
  unfold track
  split <;> rfl

theorem mem_pending_trackOwner : slot ∈ (ledger.trackOwner ref).1.pending ↔
    slot ∈ ledger.pending ∨ ledger.isTracked (.shared ref) = false ∧ (ledger.trackOwner ref).2 = slot := by
  rw [isTracked, slotOf?_shared]
  unfold trackOwner
  cases ledger.slot? ref.id with
  | some other => simp
  | none =>
    rw [Option.isSome_none]
    simp only [true_and, @eq_comm _ _ slot, or_comm (a := slot ∈ ledger.pending)]
    exact NodeSet.mem_insert_iff

theorem total_trackOwner : (ledger.trackOwner ref).1.total = ledger.total := by
  unfold trackOwner
  split <;> rfl

structure Links (ledger next : Ledger) (item : Value) : Prop where
  total : next.total = ledger.total + 1
  held : ∀ slot, next.heldAt slot = ledger.heldAt slot
  pending : next.pending = ledger.pending
  tracked : ∀ id, (next.slot? id).isSome ↔ (ledger.slot? id).isSome ∨ item.id? = some id

theorem links_of_ok (valid : ledger.Valid) (linked : ledger.link item place = .ok next) :
    ledger.Links next item := by
  obtain ⟨atom, rfl, rfl⟩ | ⟨ref, rfl, rfl⟩ := link_ok linked
  · exact ⟨rfl, fun _ => rfl, rfl, fun id => (or_iff_left (fun named => nomatch named)).symm⟩
  · let change (entry : Entry) : Entry :=
      { entry with owners := entry.owners.insert place ((ledger.track ref).1.edgesAt (ledger.track ref).2 place + 1) }
    have same (slot : Slot) : ((ledger.track ref).1.update (ledger.track ref).2 change).heldAt slot =
        (ledger.track ref).1.heldAt slot := heldAt_update_same fun _ => rfl
    exact {
      total := rfl
      held := fun slot => (same slot).trans (heldAt_track valid)
      pending := pending_track
      tracked := fun id => isSome_slot?_track.trans (or_congr_right Option.some_inj.symm) }

theorem addsEdge_of_ok (valid : ledger.Valid) (added : ledger.addEdge item owner = .ok next) :
    ledger.AddsEdge next item owner := by
  have edges (slot place : Slot) : next.edgesAt slot place = ledger.edgesAt slot place +
      if next.slotOf? item = some slot ∧ next.slotOf? owner = some place then 1 else 0 :=
    valid.edgesAt_addEdge added
  have changes := changes_addEdge valid added
  obtain ⟨id, rfl, linked⟩ := addEdge_ok added
  have tracked := changes_trackOwner ledger (.container id)
  have links := links_of_ok (valid.changes tracked) linked
  have owns : next.slotOf? (.shared (.container id)) = some (ledger.trackOwner (.container id)).2 :=
    (changes_link (valid.changes tracked)
      ((valid.changes tracked).occupied (slot?_trackOwner ledger _)) linked).slot?_eq (slot?_trackOwner ledger _)
  exact {
    total := links.total.trans (congrArg (· + 1) total_trackOwner)
    held := fun slot => (links.held slot).trans (heldAt_trackOwner valid)
    edges := edges
    pending := fun slot => by
      rw [links.pending, mem_pending_trackOwner, owns, Option.some.injEq]
    keeps := fun id slot known => changes.slot?_eq known
    tracked := fun other => by
      rw [links.tracked, isSome_slot?_trackOwner, or_assoc, or_comm (a := _ = other)]
      exact or_congr_right (or_congr_right Option.some_inj.symm) }

/-- An edge is refused for its owner, and for nothing else. -/
theorem addEdge_refused_iff {error : LedgerError} : ledger.addEdge item owner = .error (.refused error) ↔
    owner.canOwn = false ∧ error = .notContainer owner := by
  unfold addEdge
  obtain ⟨unable, none⟩ | ⟨id, rfl⟩ := container?_cases owner
  · simp only [none, Except.error.injEq, Failure.refused.injEq]
    exact ⟨fun same => ⟨unable, same.symm⟩, fun same => same.2.symm⟩
  · simp only [Value.container?]
    constructor
    · intro failed
      obtain ⟨abort, _, other⟩ := error_of_mapError failed
      cases other
    · exact fun same => absurd same.1.symm Bool.false_ne_true

theorem addCount_of_lt {count : Nat} (fits : count < maxCount) : addCount count 1 = .ok (count + 1) :=
  addCount_eq_ok_iff.mpr ⟨rfl, fits⟩

theorem exists_addEdge (valid : ledger.Valid) (owns : owner.canOwn = true) (fits : ledger.total < maxCount)
    (fit : ∀ slot place, ledger.edgesAt slot place < maxCount) : ∃ next, ledger.addEdge item owner = .ok next := by
  unfold addEdge
  obtain ⟨unable, _⟩ | ⟨id, rfl⟩ := container?_cases owner
  · rw [owns] at unable
    exact absurd unable.symm Bool.false_ne_true
  · have tracked := valid.changes (changes_trackOwner ledger (.container id))
    have total : (ledger.trackOwner (.container id)).1.total = ledger.total := total_trackOwner
    simp only [Value.container?, link, total, addCount_of_lt fits]
    cases item with
    | scalar atom => exact ⟨_, rfl⟩
    | shared ref =>
      let raised := { (ledger.trackOwner (.container id)).1 with total := ledger.total + 1 }
      have same (slot place : Slot) : (raised.track ref).1.edgesAt slot place = ledger.edgesAt slot place :=
        (show raised.Valid from tracked.withTotal).edgesAt_track.trans valid.edgesAt_trackOwner
      have counted := addCount_of_lt (fit (raised.track ref).2 (ledger.trackOwner (.container id)).2)
      rw [← same] at counted
      show ∃ next, Except.mapError Failure.aborted (addCount ((raised.track ref).1.edgesAt _ _) 1 >>= _) = .ok next
      rw [counted]
      exact ⟨_, rfl⟩

end Ledger

end Reclaim
