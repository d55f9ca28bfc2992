import Reclaim.Proofs.Ledger.Removal

/-! Removals from a ledger that may disagree with the heap. Whatever edges are recorded on the values
that stay, these keep their slots, their holds and the edges between them. -/

set_option autoImplicit false

namespace Reclaim

namespace Ledger

variable {ledger middle next : Ledger} {heap : Heap} {slot owner : Slot} {entry : Entry} {id : Ident}
  {batch : List Slot} {removed more : List (Ref × Nat)} {ref item : Ref}

structure Sheds (ledger : Ledger) (removed : List (Ref × Nat)) (next : Ledger) : Prop where
  valid : next.Valid
  kept : ∀ (slot : Slot) (entry : Entry), next.entries[slot]? = some entry → ∃ before : Entry,
    ledger.entries[slot]? = some before ∧ entry.item = before.item ∧ entry.held = before.held ∧
      ∀ owner : Slot, next.entries[owner]?.isSome → entry.owners[owner]? = before.owners[owner]?
  tracked_iff : ∀ ref, ref ∈ next.tracked ↔ ref ∈ ledger.tracked ∧ ref ∉ removed.map Prod.fst
  included : ∀ ref ∈ removed.map Prod.fst, ref ∈ ledger.tracked
  total : next.total + (removed.map Prod.snd).sum = ledger.total
  pending : ∀ slot ∈ next.pending, slot ∈ ledger.pending

namespace Sheds

theorem refl (valid : ledger.Valid) : ledger.Sheds [] ledger where
  valid := valid
  kept slot entry found := ⟨entry, found, rfl, rfl, fun _ _ => rfl⟩
  tracked_iff ref := by simp
  included ref member := nomatch member
  total := rfl
  pending slot member := member

theorem trans (first : ledger.Sheds removed middle) (second : middle.Sheds more next) :
    ledger.Sheds (removed ++ more) next where
  valid := second.valid
  kept slot entry found := by
    obtain ⟨between, present, item, held, owners⟩ := second.kept slot entry found
    obtain ⟨before, occupied, item', held', owners'⟩ := first.kept slot between present
    refine ⟨before, occupied, item.trans item', held.trans held', fun owner ownerFound => ?_⟩
    obtain ⟨ownerEntry, ownerFound'⟩ := Option.isSome_iff_exists.mp ownerFound
    obtain ⟨ownerBetween, ownerPresent, _⟩ := second.kept owner ownerEntry ownerFound'
    rw [owners owner ownerFound, owners' owner (by rw [ownerPresent]; rfl)]
  tracked_iff ref := by
    rw [second.tracked_iff, first.tracked_iff, List.map_append, List.mem_append, not_or, and_assoc]
  included ref member := by
    rw [List.map_append, List.mem_append] at member
    rcases member with member | member
    · exact first.included ref member
    · exact ((first.tracked_iff ref).mp (second.included ref member)).1
  total := by
    have before := first.total
    have after := second.total
    rw [List.map_append, List.sum_append]
    omega
  pending slot member := first.pending slot (second.pending slot member)

theorem slot?_eq (sheds : ledger.Sheds removed next) (valid : ledger.Valid)
    (known : next.slot? id = some slot) : ledger.slot? id = some slot := by
  obtain ⟨entry, found, rfl⟩ := sheds.valid.entry_of_slot? known
  obtain ⟨before, occupied, item, _⟩ := sheds.kept slot entry found
  rw [item]
  exact valid.slot_of_entry occupied

theorem edgesAt_eq (sheds : ledger.Sheds removed next) (occupied : next.entries[slot]?.isSome)
    (owned : next.entries[owner]?.isSome) : next.edgesAt slot owner = ledger.edgesAt slot owner := by
  obtain ⟨entry, found⟩ := Option.isSome_iff_exists.mp occupied
  obtain ⟨before, present, _, _, owners⟩ := sheds.kept slot entry found
  simp [edgesAt, found, present, owners owner owned]

theorem heldAt_eq (sheds : ledger.Sheds removed next) (occupied : next.entries[slot]?.isSome) :
    next.heldAt slot = ledger.heldAt slot := by
  obtain ⟨entry, found⟩ := Option.isSome_iff_exists.mp occupied
  obtain ⟨before, present, _, held, _⟩ := sheds.kept slot entry found
  simp [heldAt, found, present, held]

theorem slot?_of_tracked (sheds : ledger.Sheds removed next) (valid : ledger.Valid)
    (tracked : ref ∈ next.tracked) : ∃ slot, next.slot? ref.id = some slot ∧
      ledger.slot? ref.id = some slot ∧ next.entries[slot]?.isSome := by
  obtain ⟨slot, entry, found, rfl⟩ := mem_tracked.mp tracked
  have known := sheds.valid.slot_of_entry found
  exact ⟨slot, known, sheds.slot?_eq valid known, sheds.valid.occupied known⟩

theorem held_eq (sheds : ledger.Sheds removed next) (valid : ledger.Valid)
    (tracked : ref ∈ next.tracked) : next.held (.shared ref) = ledger.held (.shared ref) := by
  obtain ⟨slot, known, known', occupied⟩ := sheds.slot?_of_tracked valid tracked
  have located : next.slotOf? (.shared ref) = some slot := known
  have located' : ledger.slotOf? (.shared ref) = some slot := known'
  rw [held, held, located, located', Option.map_some, Option.map_some, sheds.heldAt_eq occupied]

theorem edges_eq {owner : Ref} (sheds : ledger.Sheds removed next) (valid : ledger.Valid)
    (tracked : item ∈ next.tracked) (ownerTracked : owner ∈ next.tracked) :
    next.edges (.shared item) (.shared owner) = ledger.edges (.shared item) (.shared owner) := by
  obtain ⟨slot, known, known', occupied⟩ := sheds.slot?_of_tracked valid tracked
  obtain ⟨ownerSlot, owns, owns', owned⟩ := sheds.slot?_of_tracked valid ownerTracked
  have located : next.slotOf? (.shared item) = some slot := known
  have located' : ledger.slotOf? (.shared item) = some slot := known'
  have placed : next.slotOf? (.shared owner) = some ownerSlot := owns
  have placed' : ledger.slotOf? (.shared owner) = some ownerSlot := owns'
  simp only [edges, located, located', placed, placed']
  exact sheds.edgesAt_eq occupied owned

end Sheds

/-- What the removal of a batch leaves by slot. Edges from members are forgotten where the contents of
these show them. -/
structure Cuts (ledger : Ledger) (heap : Heap) (batch : List Slot) (removal : Removal) : Prop where
  valid : removal.ledger.Valid
  entries : ∀ slot, removal.ledger.entries[slot]? = if slot ∈ batch then none else
    ledger.entries[slot]?.map fun entry => { entry with
      owners := entry.owners.filter fun owner _ =>
        !(batch.contains owner && (ledger.outgoing heap batch owner).contains slot) }
  total : removal.ledger.total + heap.childTotal (ledger.items batch) = ledger.total
  pending : ∀ slot ∈ removal.ledger.pending, slot ∈ ledger.pending
  released : removal.heap = heap.releaseAll (ledger.items batch)
  removed : removal.removed = (ledger.items batch).map fun ref => (ref, heap.childCount ref)

theorem Valid.cuts {removal : Removal} (valid : ledger.Valid) (nodup : batch.Nodup)
    (reclaimed : ledger.reclaim heap batch = .ok removal) : ledger.Cuts heap batch removal := by
  unfold reclaim at reclaimed
  simp only at reclaimed
  split at reclaimed
  next => cases reclaimed
  split at reclaimed
  next => cases reclaimed
  split at reclaimed
  next => cases reclaimed
  next covered =>
  -- All checks are passed. The edges are forgotten first, then the slots are freed one by one.
  let start : Removal :=
    { ledger := { ledger.detachAll (ledger.outgoing heap batch) batch with
        total := ledger.total - ledger.heldByBatch heap batch }
      heap }
  obtain rfl : batch.foldl Removal.next start = removal := Except.ok.inj reclaimed
  have frees := Removal.frees_foldl start (valid.detachAll _ batch).withTotal nodup
  have items : start.ledger.items batch = ledger.items batch := items_detachAll _ _ _
  refine ⟨frees.valid, fun slot => ?_, ?_, fun slot pending => ?_, ?_, ?_⟩
  · rw [frees.entries, ← entries_detachAll]
  · have lowered : start.ledger.total = ledger.total - ledger.heldByBatch heap batch := rfl
    rw [frees.total, lowered, ← heldByBatch_eq]
    omega
  · obtain ⟨entry, found⟩ := frees.valid.pending_mem slot pending
    have outside : slot ∉ batch := by
      intro member
      rw [frees.entries, if_pos member] at found
      cases found
    have same : start.ledger.pending = ledger.pending := by
      simp only [start]
      rw [detachAll_rest]
    rw [← Std.ExtTreeSet.contains_iff_mem, frees.pending slot outside, same] at pending
    exact Std.ExtTreeSet.contains_iff_mem.mp pending
  · rw [frees.heap, items]
  · rw [frees.removed, items]
    rfl

namespace Cuts

variable {removal : Removal}

theorem refs (cuts : ledger.Cuts heap batch removal) :
    removal.removed.map Prod.fst = ledger.items batch := by
  rw [cuts.removed, List.map_map]
  exact List.map_id _

theorem outside (cuts : ledger.Cuts heap batch removal)
    (occupied : removal.ledger.entries[slot]?.isSome) : slot ∉ batch := by
  intro member
  rw [cuts.entries, if_pos member] at occupied
  cases occupied

theorem entry_cases (cuts : ledger.Cuts heap batch removal)
    (found : removal.ledger.entries[slot]? = some entry) :
    ∃ before, ledger.entries[slot]? = some before ∧ { before with
      owners := before.owners.filter fun owner _ =>
        !(batch.contains owner && (ledger.outgoing heap batch owner).contains slot) } = entry := by
  have outside : slot ∉ batch := cuts.outside (by rw [found]; rfl)
  rw [cuts.entries, if_neg outside] at found
  exact Option.map_eq_some_iff.mp found

theorem tracked_iff (cuts : ledger.Cuts heap batch removal) (valid : ledger.Valid) :
    ref ∈ removal.ledger.tracked ↔ ref ∈ ledger.tracked ∧ ref ∉ ledger.items batch := by
  constructor
  · intro tracked
    obtain ⟨slot, entry, found, rfl⟩ := mem_tracked.mp tracked
    have outside : slot ∉ batch := cuts.outside (by rw [found]; rfl)
    obtain ⟨before, occupied, rfl⟩ := cuts.entry_cases found
    have tracked : before.item ∈ ledger.tracked := tracked_of_entry occupied
    refine ⟨tracked, fun member => outside ?_⟩
    exact (Vacates.mem_ids valid (valid.slot_of_entry occupied)).mp (List.mem_map_of_mem member)
  · rintro ⟨tracked, kept⟩
    obtain ⟨slot, before, occupied, rfl⟩ := mem_tracked.mp tracked
    have outside : slot ∉ batch := fun member =>
      kept (mem_items.mpr ⟨slot, member, before, occupied, rfl⟩)
    have found := cuts.entries slot
    rw [if_neg outside, occupied] at found
    exact mem_tracked.mpr ⟨slot, _, found, rfl⟩

theorem sheds (cuts : ledger.Cuts heap batch removal) (valid : ledger.Valid) :
    ledger.Sheds removal.removed removal.ledger where
  valid := cuts.valid
  kept slot entry found := by
    obtain ⟨before, occupied, rfl⟩ := cuts.entry_cases found
    refine ⟨before, occupied, rfl, rfl, fun owner owned => ?_⟩
    have outside := cuts.outside owned
    rw [Std.ExtTreeMap.getElem?_filter']
    cases before.owners[owner]? <;> simp [outside]
  tracked_iff ref := by rw [cuts.refs, cuts.tracked_iff valid]
  included ref member := tracked_of_items (cuts.refs ▸ member)
  total := by
    have counts : removal.removed.map Prod.snd = (ledger.items batch).map heap.childCount := by
      rw [cuts.removed, List.map_map]
      rfl
    rw [counts, ← Heap.childTotal_eq_sum, cuts.total]
  pending := cuts.pending

end Cuts

end Ledger

end Reclaim
