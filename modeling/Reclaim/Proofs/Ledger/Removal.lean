import Mathlib.Data.List.Nodup
import Reclaim.Ledger.Removal
import Reclaim.Proofs.Ledger.Balance

/-! The removal of a batch. Where ledger and heap agree, a batch that nothing outside of it
contains is removed exactly: the other values keep their slots, holds and edges, but for the
edges from members, and the members are released in the order of the batch. -/

set_option autoImplicit false

namespace Reclaim

namespace Ledger

variable {ledger : Ledger} {heap : Heap} {created : Nat} {slot owner : Slot} {entry : Entry}
  {id : Ident}

theorem getElem?_erase (ledger : Ledger) (slot : Slot) (id : Ident) (other : Slot) :
    (ledger.erase slot id).entries[other]? = if slot = other then none else ledger.entries[other]? :=
  getElem?_erase_key

theorem slot?_erase (ledger : Ledger) (slot : Slot) (id other : Ident) :
    (ledger.erase slot id).slot? other = if id = other then none else ledger.slot? other :=
  getElem?_erase_key

theorem Valid.erase (valid : ledger.Valid) (found : ledger.entries[slot]? = some entry) :
    (ledger.erase slot entry.item.id).Valid where
  index_iff id other := by
    have known := valid.slot_of_entry found
    rw [slot?_erase, getElem?_erase]
    by_cases here : slot = other
    -- No other identity leads to the slot that is freed.
    · rw [if_pos here]
      constructor
      · intro known'
        split at known'
        next => cases known'
        next apart => exact absurd (valid.slot?_inj known (here ▸ known')) apart
      · rintro ⟨_, absent, _⟩
        cases absent
    · rw [if_neg here, ← valid.index_iff]
      split
      next same =>
        rw [← same, known]
        simp [here]
      next => rfl
  free_nodup := by
    refine List.nodup_cons.mpr ⟨fun free => ?_, valid.free_nodup⟩
    have empty := ((valid.mem_free slot).mp free).2
    rw [found] at empty
    cases empty
  mem_free other := by
    have before := valid.mem_free other
    rw [getElem?_erase, Ledger.erase, List.mem_cons, before]
    by_cases here : slot = other
    · simp [← here, valid.bounded slot entry found]
    · rw [if_neg here]
      simp [Ne.symm here]
  bounded other entry' found' := by
    rw [getElem?_erase] at found'
    split at found'
    · cases found'
    · exact valid.bounded other entry' found'
  pending_mem other pending := by
    obtain ⟨apart, pending⟩ := NodeSet.mem_erase_iff.mp pending
    obtain ⟨entry', found'⟩ := valid.pending_mem other pending
    exact ⟨entry', by rw [getElem?_erase, if_neg (Ne.symm apart), found']⟩
  edges_pos other entry' owner edges found' recorded := by
    rw [getElem?_erase] at found'
    split at found'
    · cases found'
    · exact valid.edges_pos other entry' owner edges found' recorded

theorem entries_detach (children : List Slot) : (ledger.detach children owner).entries[slot]? =
    ledger.entries[slot]?.map fun entry =>
      if slot ∈ children then { entry with owners := entry.owners.erase owner } else entry := by
  unfold detach
  induction children generalizing ledger with
  | nil => simp
  | cons child rest ih =>
    -- A child may be listed many times, but its edges are forgotten once.
    have again : ∀ owners : SlotMap Nat, (owners.erase owner).erase owner = owners.erase owner := by
      intro owners
      apply Std.ExtTreeMap.ext_getElem?
      intro other
      rw [getElem?_erase_key, getElem?_erase_key]
      split <;> rfl
    rw [List.foldl_cons, ih, getElem?_update]
    by_cases here : child = slot
    · rw [if_pos here, Option.map_map]
      congr
      funext entry
      simp [here, again]
    · simp [here, Ne.symm here]

theorem Valid.detach (valid : ledger.Valid) (children : List Slot) :
    (ledger.detach children owner).Valid := by
  unfold Ledger.detach
  induction children generalizing ledger with
  | nil => exact valid
  | cons child rest ih =>
    refine ih (valid.update (fun _ => rfl) fun entry found other edges recorded => ?_)
    rw [getElem?_erase_key] at recorded
    split at recorded
    · cases recorded
    · exact valid.edges_pos child entry other edges found recorded

theorem detach_rest (children : List Slot) : ledger.detach children owner =
    { ledger with entries := (ledger.detach children owner).entries } := by
  unfold detach
  induction children generalizing ledger with
  | nil => rfl
  | cons child rest ih =>
    rw [List.foldl_cons, ih]
    rfl

def detachAll (ledger : Ledger) (targets : Slot → List Slot) (batch : List Slot) : Ledger :=
  batch.foldl (fun ledger owner => ledger.detach (targets owner) owner) ledger

theorem detachAll_rest (targets : Slot → List Slot) (batch : List Slot) :
    ledger.detachAll targets batch =
      { ledger with entries := (ledger.detachAll targets batch).entries } := by
  unfold detachAll
  induction batch generalizing ledger with
  | nil => rfl
  | cons member rest ih =>
    rw [List.foldl_cons, ih, detach_rest]

theorem Valid.detachAll (valid : ledger.Valid) (targets : Slot → List Slot) (batch : List Slot) :
    (ledger.detachAll targets batch).Valid := by
  unfold Ledger.detachAll
  induction batch generalizing ledger with
  | nil => exact valid
  | cons member rest ih => exact ih (valid.detach (targets member))

theorem entries_detachAll (targets : Slot → List Slot) (batch : List Slot) :
    (ledger.detachAll targets batch).entries[slot]? = ledger.entries[slot]?.map fun entry =>
      { entry with owners := entry.owners.filter fun owner _ =>
          !(batch.contains owner && (targets owner).contains slot) } := by
  unfold detachAll
  -- The owners of an entry are filtered once for each member, which is filtering by all of them.
  induction batch generalizing ledger with
  | nil =>
    have whole : ∀ owners : SlotMap Nat, owners.filter (fun _ _ => true) = owners := by
      intro owners
      apply Std.ExtTreeMap.ext_getElem?
      intro other
      rw [Std.ExtTreeMap.getElem?_filter']
      cases owners[other]? <;> rfl
    simp [whole]
  | cons member rest ih =>
    rw [List.foldl_cons, ih, entries_detach, Option.map_map]
    congr
    funext entry
    have owners : (if slot ∈ targets member then { entry with owners := entry.owners.erase member }
        else entry).owners.filter (fun owner _ =>
          !(rest.contains owner && (targets owner).contains slot)) =
        entry.owners.filter fun owner _ =>
          !((member :: rest).contains owner && (targets owner).contains slot) := by
      apply Std.ExtTreeMap.ext_getElem?
      intro other
      rw [Std.ExtTreeMap.getElem?_filter', Std.ExtTreeMap.getElem?_filter', List.contains_cons]
      by_cases here : member = other
      · subst here
        by_cases cut : slot ∈ targets member
        · rw [if_pos cut, getElem?_erase_key]
          cases entry.owners[member]? <;> simp [cut]
        · rw [if_neg cut]
          cases entry.owners[member]? <;> simp [cut]
      · have apart : (other == member) = false := beq_false_of_ne (Ne.symm here)
        by_cases cut : slot ∈ targets member
        · rw [if_pos cut, getElem?_erase_key, if_neg here, apart, Bool.false_or]
        · rw [if_neg cut, apart, Bool.false_or]
    rw [Function.comp_apply, owners]
    split <;> rfl

def items (ledger : Ledger) (batch : List Slot) : List Ref :=
  batch.filterMap fun slot => ledger.entries[slot]?.map (·.item)

theorem mem_items {batch : List Slot} {ref : Ref} : ref ∈ ledger.items batch ↔
    ∃ slot ∈ batch, ∃ entry, ledger.entries[slot]? = some entry ∧ entry.item = ref := by
  simp [items]

theorem items_detachAll (targets : Slot → List Slot) (owners batch : List Slot) :
    (ledger.detachAll targets owners).items batch = ledger.items batch := by
  apply List.filterMap_congr
  intro slot _
  rw [entries_detachAll, Option.map_map]
  rfl

theorem tracked_of_items {batch : List Slot} {ref : Ref} (member : ref ∈ ledger.items batch) :
    ref ∈ ledger.tracked := by
  obtain ⟨slot, _, entry, found, rfl⟩ := mem_items.mp member
  exact tracked_of_entry found

theorem Valid.slot_inj {other : Slot} {otherEntry : Entry} (valid : ledger.Valid)
    (found : ledger.entries[slot]? = some entry) (otherFound : ledger.entries[other]? = some otherEntry)
    (same : entry.item = otherEntry.item) : slot = other := by
  have known := valid.slot_of_entry found
  rw [same, valid.slot_of_entry otherFound] at known
  exact (Option.some.inj known).symm

theorem Valid.mem_items_iff {batch : List Slot} (valid : ledger.Valid)
    (found : ledger.entries[slot]? = some entry) : entry.item ∈ ledger.items batch ↔ slot ∈ batch := by
  rw [mem_items]
  constructor
  · rintro ⟨other, member, otherEntry, otherFound, same⟩
    exact valid.slot_inj otherFound found same ▸ member
  · intro member
    exact ⟨slot, member, entry, found, rfl⟩

theorem Valid.nodup_items {batch : List Slot} (valid : ledger.Valid) (nodup : batch.Nodup) :
    (ledger.items batch).Nodup := by
  refine List.Nodup.filterMap (fun first second ref inFirst inSecond => ?_) nodup
  obtain ⟨entry, found, rfl⟩ := Option.map_eq_some_iff.mp inFirst
  obtain ⟨entry', found', same⟩ := Option.map_eq_some_iff.mp inSecond
  exact valid.slot_inj found found' same.symm

end Ledger

variable {before : Removal} {batch : List Slot}

structure Removal.Frees (before : Removal) (batch : List Slot) (after : Removal) : Prop where
  valid : after.ledger.Valid
  entries : ∀ slot, after.ledger.entries[slot]? =
    if slot ∈ batch then none else before.ledger.entries[slot]?
  pending : ∀ slot, slot ∉ batch →
    after.ledger.pending.contains slot = before.ledger.pending.contains slot
  total : after.ledger.total = before.ledger.total
  heap : after.heap = before.heap.releaseAll (before.ledger.items batch)
  removed : after.removed = before.removed ++
    (before.ledger.items batch).map fun ref => (ref, before.heap.childCount ref)

namespace Removal

variable {after : Removal} {slot : Slot} {entry : Entry} {rest : List Slot}

def freed (before : Removal) (slot : Slot) (entry : Entry) : Removal where
  ledger := before.ledger.erase slot entry.item.id
  heap := before.heap.release entry.item
  removed := before.removed ++ [(entry.item, before.heap.childCount entry.item)]

theorem next_of_empty (empty : before.ledger.entries[slot]? = none) : before.next slot = before := by
  unfold next
  rw [empty]

theorem next_of_entry (found : before.ledger.entries[slot]? = some entry) :
    before.next slot = before.freed slot entry := by
  unfold next
  rw [found]
  rfl

theorem Frees.skip (frees : before.Frees rest after)
    (empty : before.ledger.entries[slot]? = none) : before.Frees (slot :: rest) after := by
  have items : before.ledger.items (slot :: rest) = before.ledger.items rest := by
    simp [Ledger.items, empty]
  refine ⟨frees.valid, fun other => ?_, fun other apart => ?_, frees.total, ?_, ?_⟩
  · rw [frees.entries]
    by_cases here : other = slot
    · simp [here, empty]
    · simp [here]
  · exact frees.pending other fun member => apart (List.mem_cons_of_mem slot member)
  · rw [items, frees.heap]
  · rw [items, frees.removed]

theorem childCount_freed (valid : before.ledger.Valid)
    (found : before.ledger.entries[slot]? = some entry) (fresh : slot ∉ rest) {ref : Ref}
    (member : ref ∈ before.ledger.items rest) :
    (before.freed slot entry).heap.childCount ref = before.heap.childCount ref := by
  -- A member that comes later is another value, so its children are still there.
  exact Heap.childCount_release fun same => fresh ((valid.mem_items_iff found).mp (same ▸ member))

theorem Frees.free (frees : (before.freed slot entry).Frees rest after)
    (valid : before.ledger.Valid) (found : before.ledger.entries[slot]? = some entry)
    (fresh : slot ∉ rest) : before.Frees (slot :: rest) after := by
  have entries : ∀ other, (before.freed slot entry).ledger.entries[other]? =
      if slot = other then none else before.ledger.entries[other]? :=
    before.ledger.getElem?_erase slot entry.item.id
  have items : before.ledger.items (slot :: rest) = entry.item :: before.ledger.items rest := by
    simp [Ledger.items, found]
  have same : (before.freed slot entry).ledger.items rest = before.ledger.items rest := by
    refine List.filterMap_congr fun other member => ?_
    rw [entries, if_neg fun here : slot = other => fresh (here ▸ member)]
  have counts : (before.ledger.items rest).map
      (fun ref => (ref, (before.freed slot entry).heap.childCount ref)) =
        (before.ledger.items rest).map fun ref => (ref, before.heap.childCount ref) :=
    List.map_congr_left fun ref member =>
      congrArg (ref, ·) (childCount_freed valid found fresh member)
  refine ⟨frees.valid, fun other => ?_, fun other apart => ?_, frees.total, ?_, ?_⟩
  · rw [frees.entries, entries]
    by_cases here : slot = other
    · simp [here]
    · simp [here, Ne.symm here]
  · obtain ⟨elsewhere, later⟩ := not_or.mp (mt List.mem_cons.mpr apart)
    rw [frees.pending other later]
    simp [freed, Ledger.erase, Std.ExtTreeSet.contains_erase, Ne.symm elsewhere]
  · rw [items, frees.heap, same]
    rfl
  · rw [items, frees.removed, same, counts]
    simp [freed]

theorem frees_foldl (before : Removal) (valid : before.ledger.Valid) (nodup : batch.Nodup) :
    before.Frees batch (batch.foldl next before) := by
  induction batch generalizing before with
  | nil =>
    exact ⟨valid, fun slot => by simp, fun _ _ => rfl, rfl, rfl, by simp [Ledger.items]⟩
  | cons slot rest ih =>
    obtain ⟨fresh, nodup⟩ := List.nodup_cons.mp nodup
    rw [List.foldl_cons]
    cases found : before.ledger.entries[slot]? with
    | none =>
      rw [next_of_empty found]
      exact (ih before valid nodup).skip found
    | some entry =>
      rw [next_of_entry found]
      exact (ih (before.freed slot entry) (valid.erase found) nodup).free valid found fresh

end Removal

namespace Book

/-- Take the accounts of a batch out, and the edges from its members. -/
def withdraw (book : Book) (refs : List Ref) (held : Nat) : Book where
  total := book.total - held
  account id := if id ∈ refs.map Ref.id then none
    else (book.account id).map fun account => { account with
      owners := fun owner => if owner ∈ refs.map Ref.id then 0 else account.owners owner }

theorem edges_withdraw {book : Book} {refs : List Ref} {held : Nat} {item owner : Ident} :
    (book.withdraw refs held).edges item owner =
      if item ∈ refs.map Ref.id ∨ owner ∈ refs.map Ref.id then 0 else book.edges item owner := by
  unfold edges withdraw
  simp only
  by_cases inside : item ∈ refs.map Ref.id
  · rw [if_pos inside, if_pos (.inl inside)]
    rfl
  · rw [if_neg inside]
    by_cases ownerInside : owner ∈ refs.map Ref.id
    · rw [if_pos (.inr ownerInside)]
      cases book.account item <;>
        simp only [Option.map_some, Option.map_none, Option.getD_some, Option.getD_none,
          if_pos ownerInside]
    · rw [if_neg (not_or.mpr ⟨inside, ownerInside⟩)]
      cases book.account item <;>
        simp only [Option.map_some, Option.map_none, Option.getD_some, if_neg ownerInside]

theorem withdraw_withdraw {book : Book} {first second : List Ref} {held more : Nat} :
    (book.withdraw first held).withdraw second more =
      book.withdraw (first ++ second) (held + more) := by
  apply Book.ext
  · exact Nat.sub_sub _ _ _
  · funext id
    simp only [withdraw, List.map_append, List.mem_append]
    by_cases inSecond : id ∈ second.map Ref.id
    · rw [if_pos inSecond, if_pos (.inr inSecond)]
    by_cases inFirst : id ∈ first.map Ref.id
    · rw [if_neg inSecond, if_pos inFirst, if_pos (.inl inFirst)]
      rfl
    rw [if_neg inSecond, if_neg inFirst, if_neg (not_or.mpr ⟨inFirst, inSecond⟩), Option.map_map]
    congr
    funext account
    refine Account.ext rfl rfl rfl (funext fun owner => ?_)
    simp only [Function.comp_apply]
    by_cases ownerSecond : owner ∈ second.map Ref.id
    · rw [if_pos ownerSecond, if_pos (.inr ownerSecond)]
    · by_cases ownerFirst : owner ∈ first.map Ref.id
      · rw [if_neg ownerSecond, if_pos ownerFirst, if_pos (.inl ownerFirst)]
      · rw [if_neg ownerSecond, if_neg ownerFirst, if_neg (not_or.mpr ⟨ownerFirst, ownerSecond⟩)]

theorem withdraw_nil {book : Book} : book.withdraw [] 0 = book := by
  apply Book.ext
  · rfl
  · funext id
    simp [withdraw]

/-- The order of a batch cannot be seen afterwards. -/
theorem withdraw_perm {book : Book} {first second : List Ref} {held : Nat}
    (same : ∀ ref, ref ∈ first ↔ ref ∈ second) :
    book.withdraw first held = book.withdraw second held := by
  have ids : ∀ id, id ∈ first.map Ref.id ↔ id ∈ second.map Ref.id := by
    intro id
    simp only [List.mem_map, same]
  simp only [withdraw, ids]

end Book

namespace Ledger

variable {ledger : Ledger} {heap : Heap} {created : Nat} {slot owner : Slot} {entry : Entry}

theorem heldByBatch_eq : ledger.heldByBatch heap batch = heap.childTotal (ledger.items batch) := by
  unfold heldByBatch Heap.childTotal items
  induction batch with
  | nil => rfl
  | cons slot rest ih =>
    rw [List.foldr_cons, ih, childCountAt]
    cases found : ledger.entries[slot]? <;> simp [found]

namespace Housed

theorem count_childSlots {ownerEntry : Entry} (housed : ledger.Housed heap created)
    (found : ledger.entries[slot]? = some entry)
    (ownerFound : ledger.entries[owner]? = some ownerEntry) :
    (ledger.childSlots heap owner).count slot =
      (heap.children ownerEntry.item).count (.shared entry.item) := by
  unfold childSlots
  rw [ownerFound]
  simp only
  rw [List.count_filterMap, List.count]
  refine List.countP_congr fun value member => ?_
  have held := housed.formed.children_held ownerEntry.item value member
  rw [beq_iff_eq, beq_iff_eq, housed.slotOf?_iff held found]

theorem mem_childSlots {ownerEntry : Entry} (housed : ledger.Housed heap created)
    (found : ledger.entries[slot]? = some entry)
    (ownerFound : ledger.entries[owner]? = some ownerEntry) :
    slot ∈ ledger.childSlots heap owner ↔ heap.Contains ownerEntry.item entry.item := by
  rw [← List.count_pos_iff, housed.count_childSlots found ownerFound, List.count_pos_iff]
  rfl

end Housed

namespace Sound

theorem count_childSlots {ownerEntry : Entry} (sound : ledger.Sound heap created [])
    (found : ledger.entries[slot]? = some entry)
    (ownerFound : ledger.entries[owner]? = some ownerEntry) :
    (ledger.childSlots heap owner).count slot =
      (heap.children ownerEntry.item).count (.shared entry.item) :=
  sound.housed.count_childSlots found ownerFound

theorem mem_childSlots {ownerEntry : Entry} (sound : ledger.Sound heap created [])
    (found : ledger.entries[slot]? = some entry)
    (ownerFound : ledger.entries[owner]? = some ownerEntry) :
    slot ∈ ledger.childSlots heap owner ↔ heap.Contains ownerEntry.item entry.item :=
  sound.housed.mem_childSlots found ownerFound

/-- The check of a batch succeeds wherever ledger and heap agree. -/
theorem edgesMatch (sound : ledger.Sound heap created []) : ledger.edgesMatch heap batch owner := by
  unfold Ledger.edgesMatch
  simp only [List.all_eq_true, beq_iff_eq]
  intro slot member
  have outside := (List.mem_filter.mp member).2
  have contained := (List.mem_filter.mp member).1
  rw [outgoing, List.count_filter (p := fun slot => !batch.contains slot) outside]
  cases ownerFound : ledger.entries[owner]? with
  | none => simp [childSlots, ownerFound] at contained
  | some ownerEntry =>
    have listed := contained
    unfold childSlots at listed
    rw [ownerFound] at listed
    obtain ⟨value, _, located⟩ := List.mem_filterMap.mp listed
    obtain ⟨id, _, located⟩ := Option.bind_eq_some_iff.mp located
    obtain ⟨entry, found, _⟩ := sound.valid.entry_of_slot? located
    rw [sound.edgesAt_eq found ownerFound, sound.count_childSlots found ownerFound]

end Sound

theorem Valid.slot?_filter {after : Ledger} (valid : ledger.Valid) (left : after.Valid)
    (kept : ∀ slot, after.entries[slot]?.map (·.item) =
      if slot ∈ batch then none else ledger.entries[slot]?.map (·.item)) (id : Ident) :
    after.slot? id = (ledger.slot? id).filter (!batch.contains ·) := by
  have index : ∀ {ledger : Ledger}, ledger.Valid → ∀ slot, ledger.slot? id = some slot ↔
      ∃ ref, ledger.entries[slot]?.map (·.item) = some ref ∧ ref.id = id := by
    intro ledger valid slot
    rw [valid.index_iff]
    simp
  apply Option.ext
  intro slot
  rw [Option.filter_eq_some_iff, index left, kept, index valid]
  by_cases member : slot ∈ batch <;> simp [member]

theorem reclaim_of_occupied (occupied : ∀ slot ∈ batch, ledger.entries[slot]?.isSome) :
    ledger.reclaim heap batch =
      if !batch.all (ledger.edgesMatch heap batch) then .error (.inconsistent .edgesDiffer)
      else if ledger.total < heap.childTotal (ledger.items batch) then .error .totalUnderflow
      else .ok (batch.foldl Removal.next
        { ledger := { ledger.detachAll (ledger.outgoing heap batch) batch with
            total := ledger.total - heap.childTotal (ledger.items batch) }
          heap }) := by
  have tracked : ¬batch.any (ledger.entries[·]?.isNone) := by
    simpa [Option.isNone_iff_eq_none, Option.isSome_iff_ne_none] using occupied
  unfold Ledger.reclaim
  rw [if_neg tracked, heldByBatch_eq]
  rfl

structure Removes (ledger : Ledger) (heap : Heap) (refs : List Ref) (removal : Removal) : Prop where
  book : removal.ledger.book = ledger.book.withdraw refs (heap.childTotal refs)
  released : removal.heap = heap.releaseAll refs
  removed : removal.removed = refs.map fun ref => (ref, heap.childCount ref)

structure Vacates (ledger : Ledger) (batch : List Slot) (after : Ledger) : Prop where
  valid : after.Valid
  entries : ∀ slot, after.entries[slot]? = if slot ∈ batch then none else
    ledger.entries[slot]?.map fun entry =>
      { entry with owners := entry.owners.filter fun owner _ => !batch.contains owner }
  pending : ∀ slot, slot ∉ batch → after.pending.contains slot = ledger.pending.contains slot

namespace Vacates

variable {after : Ledger} {id : Ident}

theorem entry_cases (vacates : ledger.Vacates batch after)
    (found : after.entries[slot]? = some entry) : slot ∉ batch ∧ ∃ before,
      ledger.entries[slot]? = some before ∧
        { before with owners := before.owners.filter fun owner _ => !batch.contains owner } = entry := by
  rw [vacates.entries] at found
  split at found
  next => cases found
  next outside => exact ⟨outside, Option.map_eq_some_iff.mp found⟩

theorem slot? (vacates : ledger.Vacates batch after) (valid : ledger.Valid) (id : Ident) :
    after.slot? id = (ledger.slot? id).filter (!batch.contains ·) := by
  refine valid.slot?_filter vacates.valid (fun slot => ?_) id
  rw [vacates.entries]
  split
  · rfl
  · rw [Option.map_map]
    rfl

theorem mem_ids (valid : ledger.Valid) (known : ledger.slot? id = some slot) :
    id ∈ (ledger.items batch).map Ref.id ↔ slot ∈ batch := by
  rw [List.mem_map]
  constructor
  · rintro ⟨ref, member, rfl⟩
    obtain ⟨other, inside, entry, found, rfl⟩ := mem_items.mp member
    rw [valid.slot_of_entry found] at known
    exact Option.some.inj known ▸ inside
  · intro inside
    obtain ⟨entry, found, same⟩ := valid.entry_of_slot? known
    exact ⟨entry.item, mem_items.mpr ⟨slot, inside, entry, found, rfl⟩, same⟩

theorem book_account (vacates : ledger.Vacates batch after) (valid : ledger.Valid) (id : Ident) :
    after.book.account id = if id ∈ (ledger.items batch).map Ref.id then none
      else (ledger.book.account id).map fun account => { account with
        owners := fun owner =>
          if owner ∈ (ledger.items batch).map Ref.id then 0 else account.owners owner } := by
  have index := vacates.slot? valid
  have outside : ∀ {id : Ident}, ledger.slot? id = none → id ∉ (ledger.items batch).map Ref.id := by
    intro id untracked member
    obtain ⟨ref, inside, rfl⟩ := List.mem_map.mp member
    obtain ⟨slot, _, entry, found, rfl⟩ := mem_items.mp inside
    rw [valid.slot_of_entry found] at untracked
    cases untracked
  cases known : ledger.slot? id with
  | none =>
    have gone : after.slot? id = none := by rw [index, known]; rfl
    rw [book_account_none gone, if_neg (outside known), book_account_none known]
    rfl
  | some slot =>
    by_cases inside : slot ∈ batch
    · have gone : after.slot? id = none := by rw [index, known]; simp [inside]
      rw [book_account_none gone, if_pos ((mem_ids valid known).mpr inside)]
    have kept : after.slot? id = some slot := by rw [index, known]; simp [inside]
    obtain ⟨entry, found, _⟩ := valid.entry_of_slot? known
    have foundAfter := vacates.entries slot
    rw [if_neg inside, found] at foundAfter
    rw [Ledger.book_account kept foundAfter, if_neg (mt (mem_ids valid known).mp inside),
      Ledger.book_account known found]
    -- An owner is left out of the account if its slot is in the batch, that is, if it is a member.
    refine congrArg some (Account.ext rfl rfl (vacates.pending slot inside) (funext fun owner => ?_))
    simp only [toAccount, index]
    cases ownerKnown : ledger.slot? owner with
    | none => rw [if_neg (outside ownerKnown)]; rfl
    | some ownerSlot =>
      rw [Option.filter_some]
      by_cases member : ownerSlot ∈ batch
      · rw [if_neg (by simp [member]), if_pos ((mem_ids valid ownerKnown).mpr member)]
        rfl
      · rw [if_pos (by simp [member]), if_neg (mt (mem_ids valid ownerKnown).mp member),
          Option.bind_some, Option.bind_some, Std.ExtTreeMap.getElem?_filter']
        cases entry.owners[ownerSlot]? <;> simp [Option.filter_some, member]

theorem book (vacates : ledger.Vacates batch after) (valid : ledger.Valid) {held : Nat}
    (total : after.total = ledger.total - held) :
    after.book = ledger.book.withdraw (ledger.items batch) held := by
  apply Book.ext
  · exact total
  · funext id
    exact vacates.book_account valid id

theorem closed (vacates : ledger.Vacates batch after) (closed : ledger.Closed) : after.Closed := by
  intro slot entry owner edges found recorded
  obtain ⟨_, before, present, rfl⟩ := vacates.entry_cases found
  rw [Std.ExtTreeMap.getElem?_filter', Option.filter_eq_some_iff] at recorded
  obtain ⟨other, occupied⟩ := closed slot before owner edges present recorded.1
  have outside : owner ∉ batch := by simpa using recorded.2
  rw [vacates.entries, if_neg outside, occupied]
  exact ⟨_, rfl⟩

end Vacates

namespace Sound

theorem vacates (sound : ledger.Sound heap created []) (nodup : batch.Nodup) (total : Nat) :
    ledger.Vacates batch (batch.foldl Removal.next { ledger :=
      { ledger.detachAll (ledger.outgoing heap batch) batch with total }, heap }).ledger := by
  -- The edges that a batch holds on other values are forgotten, because they are all places of its contents.
  have valid : Valid { ledger.detachAll (ledger.outgoing heap batch) batch with total } :=
    (sound.valid.detachAll _ batch).withTotal
  have frees := Removal.frees_foldl { ledger := _, heap } valid nodup
  refine ⟨frees.valid, fun slot => ?_, fun slot outside => ?_⟩
  · rw [frees.entries]
    by_cases inside : slot ∈ batch
    · rw [if_pos inside, if_pos inside]
    rw [if_neg inside, if_neg inside]
    simp only [entries_detachAll]
    cases found : ledger.entries[slot]? with
    | none => rfl
    | some entry =>
      refine congrArg some (congrArg (fun owners => { entry with owners }) ?_)
      apply Std.ExtTreeMap.ext_getElem?
      intro owner
      rw [Std.ExtTreeMap.getElem?_filter', Std.ExtTreeMap.getElem?_filter']
      cases recorded : entry.owners[owner]? with
      | none => rfl
      | some edges =>
        -- What is recorded is contained, so an owner in the batch had this slot as a target.
        obtain ⟨ownerEntry, ownerFound⟩ := sound.closed slot entry owner edges found recorded
        have contains := (sound.recorded_iff found ownerFound).mp (by rw [recorded]; rfl)
        have target : slot ∈ ledger.outgoing heap batch owner :=
          List.mem_filter.mpr ⟨(sound.mem_childSlots found ownerFound).mpr contains, by simp [inside]⟩
        simp [Option.filter_some, target]
  · rw [frees.pending slot outside]
    simp only
    rw [detachAll_rest]

/-- Of the reasons to refuse a batch, only the total is left. -/
theorem reclaim_eq (sound : ledger.Sound heap created [])
    (occupied : ∀ slot ∈ batch, ledger.entries[slot]?.isSome) :
    ledger.reclaim heap batch =
      if ledger.total < heap.childTotal (ledger.items batch) then .error .totalUnderflow
      else .ok (batch.foldl Removal.next
        { ledger := { ledger.detachAll (ledger.outgoing heap batch) batch with
            total := ledger.total - heap.childTotal (ledger.items batch) }
          heap }) := by
  have matching : ¬(!batch.all (ledger.edgesMatch heap batch)) := by
    simpa using fun slot _ => sound.edgesMatch
  rw [reclaim_of_occupied occupied, if_neg matching]

theorem reclaim (sound : ledger.Sound heap created []) (nodup : batch.Nodup)
    (occupied : ∀ slot ∈ batch, ledger.entries[slot]?.isSome)
    (covered : heap.childTotal (ledger.items batch) ≤ ledger.total) :
    ∃ removal, ledger.reclaim heap batch = .ok removal ∧
      ledger.Removes heap (ledger.items batch) removal ∧ ledger.Vacates batch removal.ledger := by
  let start : Removal :=
    { ledger := { ledger.detachAll (ledger.outgoing heap batch) batch with
        total := ledger.total - heap.childTotal (ledger.items batch) }
      heap }
  have reclaimed : ledger.reclaim heap batch = .ok (batch.foldl Removal.next start) := by
    rw [sound.reclaim_eq occupied, if_neg (Nat.not_lt.mpr covered)]
  have vacates := sound.vacates nodup (ledger.total - heap.childTotal (ledger.items batch))
  have frees := Removal.frees_foldl start (sound.valid.detachAll _ batch).withTotal nodup
  have items : start.ledger.items batch = ledger.items batch := items_detachAll _ _ _
  refine ⟨_, reclaimed, ⟨vacates.book sound.valid frees.total, ?_, ?_⟩, vacates⟩
  · rw [frees.heap, items]
  · rw [frees.removed, items]
    rfl

theorem reclaim_refused (sound : ledger.Sound heap created [])
    (occupied : ∀ slot ∈ batch, ledger.entries[slot]?.isSome)
    (short : ledger.total < heap.childTotal (ledger.items batch)) :
    ledger.reclaim heap batch = .error .totalUnderflow := by
  rw [sound.reclaim_eq occupied, if_pos short]

variable {refs : List Ref} {removal : Removal}

/-- Ledger and heap still agree if nothing outside of the batch contained a member. -/
theorem removes (sound : ledger.Sound heap created []) (tracked : ∀ ref ∈ refs, ref ∈ ledger.tracked)
    (enclosed : ∀ owner child, heap.Contains owner child → child ∈ refs → owner ∈ refs)
    (removes : ledger.Removes heap refs removal) (vacates : ledger.Vacates batch removal.ledger) :
    removal.ledger.Sound removal.heap created [] := by
  have present : ∀ ref ∈ refs, heap.holds (.shared ref) := fun ref member =>
    sound.present ref (tracked ref member)
  have holds : ∀ value, removal.heap.holds value = heap.holds value := fun value => by
    rw [removes.released, Heap.holds_releaseAll present]
  have mem_ids : ∀ ref, heap.holds (.shared ref) → (ref.id ∈ refs.map Ref.id ↔ ref ∈ refs) := by
    intro ref held
    refine ⟨fun member => ?_, List.mem_map_of_mem⟩
    obtain ⟨other, member, same⟩ := List.mem_map.mp member
    exact sound.formed.inj other ref (present other member) held same ▸ member
  refine ⟨removes.released ▸ sound.formed.releaseAll present, vacates.valid,
    vacates.closed sound.closed, fun ref after => ?_, (fun _ member => nomatch member), ?_⟩
  · obtain ⟨slot, entry, found, rfl⟩ := mem_tracked.mp after
    obtain ⟨_, before, occupied, rfl⟩ := vacates.entry_cases found
    exact (holds _).trans (sound.present before.item (tracked_of_entry occupied))
  · intro item owner itemHeld ownerHeld
    rw [holds] at itemHeld ownerHeld
    have before := sound.balanced item owner itemHeld ownerHeld
    rw [sound.valid.edges_eq] at before
    rw [vacates.valid.edges_eq, removes.book, Book.edges_withdraw, removes.released,
      Heap.children_releaseAll]
    simp only [mem_ids item itemHeld, mem_ids owner ownerHeld]
    by_cases ownerInside : owner ∈ refs
    · rw [if_pos (.inr ownerInside), if_pos ownerInside]
      rfl
    rw [if_neg ownerInside]
    -- An owner outside of the batch contains no member, so no edge was lost that it still pays for.
    by_cases inside : item ∈ refs
    · have uncontained : (heap.children owner).count (.shared item) = 0 :=
        List.count_eq_zero.mpr fun contains => ownerInside (enclosed owner item contains inside)
      rw [if_pos (.inl inside), uncontained]
      rfl
    · rw [if_neg (not_or.mpr ⟨inside, ownerInside⟩)]
      exact before

end Sound

end Ledger

end Reclaim
