import Reclaim.Proofs.Ledger.Removal

/-! Liveness: a value is live if a held value leads to it through contents. Dead values can be
taken out in any number of batches. Whatever is dead stays dead meanwhile, whatever is live stays
live, and what several batches have taken out is what one batch would have. -/

set_option autoImplicit false

namespace Reclaim

namespace Ledger

variable {ledger after : Ledger} {heap : Heap} {created : Nat} {slot : Slot} {entry : Entry}
  {ref owner item : Ref} {refs : List Ref} {batch : List Slot} {removal : Removal}

/-- A tracked value with holds leads to this one. -/
def Live (ledger : Ledger) (heap : Heap) (ref : Ref) : Prop :=
  ∃ root ∈ ledger.tracked, 0 < ledger.held (.shared root) ∧ heap.Leads root ref

theorem Valid.held_eq (valid : ledger.Valid) (found : ledger.entries[slot]? = some entry) :
    ledger.held (.shared entry.item) = entry.held := by
  have located : ledger.slotOf? (.shared entry.item) = some slot := valid.slot_of_entry found
  rw [held, located, Option.map_some, Option.getD_some, heldAt, found]
  rfl

theorem Valid.live_of_held (valid : ledger.Valid) (found : ledger.entries[slot]? = some entry)
    (held : 0 < entry.held) : ledger.Live heap entry.item :=
  ⟨entry.item, tracked_of_entry found, (valid.held_eq found).symm ▸ held, .refl⟩

theorem Live.child (live : ledger.Live heap owner) (contains : heap.Contains owner item) :
    ledger.Live heap item := by
  obtain ⟨root, tracked, held, path⟩ := live
  exact ⟨root, tracked, held, path.tail contains⟩

theorem Live.leads (live : ledger.Live heap owner) (path : heap.Leads owner item) :
    ledger.Live heap item := by
  obtain ⟨root, tracked, held, before⟩ := live
  exact ⟨root, tracked, held, before.trans path⟩

/-- No path from a held value enters a set of values without holds that is not entered from
outside. -/
theorem not_live_of_enclosed
    (enclosed : ∀ owner child, heap.Contains owner child → child ∈ refs → owner ∈ refs)
    (unheld : ∀ ref ∈ refs, ledger.held (.shared ref) = 0) (member : ref ∈ refs) :
    ¬ledger.Live heap ref := by
  rintro ⟨root, _, held, path⟩
  have inside : root ∈ refs := by
    induction path with
    | refl => exact member
    | tail _ contains ih => exact ih (enclosed _ _ contains member)
  exact Nat.ne_of_gt held (unheld root inside)

namespace Vacates

theorem mem_tracked_iff (vacates : ledger.Vacates batch after) (valid : ledger.Valid) :
    ref ∈ after.tracked ↔ ref ∈ ledger.tracked ∧ ref ∉ ledger.items batch := by
  rw [mem_tracked, mem_tracked]
  constructor
  · rintro ⟨slot, entry, found, rfl⟩
    obtain ⟨outside, before, occupied, rfl⟩ := vacates.entry_cases found
    refine ⟨⟨slot, before, occupied, rfl⟩, fun member => outside ?_⟩
    exact (mem_ids valid (valid.slot_of_entry occupied)).mp (List.mem_map_of_mem member)
  · rintro ⟨⟨slot, entry, found, rfl⟩, outside⟩
    have kept : slot ∉ batch := fun inside =>
      outside (mem_items.mpr ⟨slot, inside, entry, found, rfl⟩)
    have entry := vacates.entries slot
    rw [if_neg kept, found, Option.map_some] at entry
    exact ⟨slot, _, entry, rfl⟩

theorem held_eq (vacates : ledger.Vacates batch after) (valid : ledger.Valid)
    (kept : ref ∈ after.tracked) : after.held (.shared ref) = ledger.held (.shared ref) := by
  obtain ⟨slot, entry, found, rfl⟩ := mem_tracked.mp kept
  rw [vacates.valid.held_eq found]
  obtain ⟨_, before, occupied, rfl⟩ := vacates.entry_cases found
  exact (valid.held_eq occupied).symm

end Vacates

/-- The removal of dead values neither kills a value nor revives one. -/
theorem Removes.live_iff (removes : ledger.Removes heap (ledger.items batch) removal)
    (vacates : ledger.Vacates batch removal.ledger) (valid : ledger.Valid)
    (dead : ∀ ref ∈ ledger.items batch, ¬ledger.Live heap ref) :
    removal.ledger.Live removal.heap ref ↔ ledger.Live heap ref := by
  have children : ∀ owner, removal.heap.children owner =
      if owner ∈ ledger.items batch then [] else heap.children owner := fun owner => by
    rw [removes.released, Heap.children_releaseAll]
  constructor
  · rintro ⟨root, kept, held, path⟩
    have tracked := ((vacates.mem_tracked_iff valid).mp kept).1
    have fewer : ∀ owner item, removal.heap.Contains owner item → heap.Contains owner item := by
      intro owner item contains
      rw [Heap.Contains, children] at contains
      split at contains
      · cases contains
      · exact contains
    exact ⟨root, tracked, vacates.held_eq valid kept ▸ held, Relation.ReflTransGen.mono fewer _ _ path⟩
  · rintro ⟨root, tracked, held, path⟩
    -- What a held value leads to is live, so no way there has lost a container of the batch.
    have alive : ledger.Live heap root := ⟨root, tracked, held, .refl⟩
    have kept := (vacates.mem_tracked_iff valid).mpr ⟨tracked, fun member => dead root member alive⟩
    refine ⟨root, kept, (vacates.held_eq valid kept).symm ▸ held, ?_⟩
    induction path with
    | refl => exact .refl
    | tail path contains ih =>
      refine ih.tail ?_
      rw [Heap.Contains, children, if_neg fun member => dead _ member (alive.leads path)]
      exact contains

structure Collects (ledger : Ledger) (heap : Heap) (created : Nat) (refs : List Ref)
    (removal : Removal) : Prop where
  removes : ledger.Removes heap refs removal
  nodup : refs.Nodup
  dead : ∀ ref ∈ refs, ref ∈ ledger.tracked ∧ ¬ledger.Live heap ref
  covered : heap.childTotal refs ≤ ledger.total
  sound : removal.ledger.Sound removal.heap created []
  tracked_iff : ∀ ref, ref ∈ removal.ledger.tracked ↔ ref ∈ ledger.tracked ∧ ref ∉ refs
  live_iff : ∀ ref, removal.ledger.Live removal.heap ref ↔ ledger.Live heap ref

namespace Collects

theorem none (sound : ledger.Sound heap created []) :
    ledger.Collects heap created [] { ledger, heap } where
  removes := ⟨Book.withdraw_nil.symm, rfl, rfl⟩
  nodup := .nil
  dead _ member := nomatch member
  covered := Nat.zero_le _
  sound := sound
  tracked_iff ref := by simp
  live_iff ref := .rfl

theorem childCount_eq (collects : ledger.Collects heap created refs removal)
    (kept : ref ∈ removal.ledger.tracked) :
    removal.heap.childCount ref = heap.childCount ref := by
  rw [collects.removes.released]
  exact Heap.childCount_releaseAll ((collects.tracked_iff ref).mp kept).2

theorem childTotal_eq {more : List Ref} (collects : ledger.Collects heap created refs removal)
    (kept : ∀ ref ∈ more, ref ∈ removal.ledger.tracked) :
    removal.heap.childTotal more = heap.childTotal more :=
  Heap.childTotal_congr fun ref member => collects.childCount_eq (kept ref member)

theorem total_eq (collects : ledger.Collects heap created refs removal) :
    removal.ledger.total = ledger.total - heap.childTotal refs :=
  congrArg Book.total collects.removes.book

theorem extend {more : List Ref} (collects : ledger.Collects heap created refs removal)
    (nodup : more.Nodup)
    (dead : ∀ ref ∈ more, ref ∈ removal.ledger.tracked ∧ ¬removal.ledger.Live removal.heap ref) :
    (refs ++ more).Nodup ∧ (∀ ref ∈ refs ++ more, ref ∈ ledger.tracked ∧ ¬ledger.Live heap ref) ∧
      heap.childTotal (refs ++ more) = heap.childTotal refs + removal.heap.childTotal more := by
  refine ⟨?_, fun ref member => ?_, ?_⟩
  · exact List.nodup_append.mpr ⟨collects.nodup, nodup, fun ref member other later same =>
      ((collects.tracked_iff other).mp (dead other later).1).2 (same ▸ member)⟩
  · rcases List.mem_append.mp member with before | later
    · exact collects.dead ref before
    · exact ⟨((collects.tracked_iff ref).mp (dead ref later).1).1, fun live =>
        (dead ref later).2 ((collects.live_iff ref).mpr live)⟩
  · rw [Heap.childTotal_append, collects.childTotal_eq fun ref member => (dead ref member).1]

theorem append {more : List Ref} {next : Removal}
    (first : ledger.Collects heap created refs removal)
    (second : removal.ledger.Collects removal.heap created more next) :
    ledger.Collects heap created (refs ++ more)
      { next with removed := removal.removed ++ next.removed } := by
  obtain ⟨nodup, dead, total⟩ := first.extend second.nodup second.dead
  refine ⟨⟨?_, ?_, ?_⟩, nodup, dead, ?_, second.sound, fun ref => ?_, fun ref => ?_⟩
  · rw [second.removes.book, first.removes.book, Book.withdraw_withdraw, total]
  · rw [second.removes.released, first.removes.released, Heap.releaseAll, Heap.releaseAll,
      Heap.releaseAll, List.foldl_append]
  · rw [List.map_append]
    simp only [first.removes.removed, second.removes.removed]
    exact congrArg _ (List.map_congr_left fun ref member =>
      congrArg (ref, ·) (first.childCount_eq (second.dead ref member).1))
  · have before := first.covered
    have after := second.covered
    rw [first.total_eq] at after
    omega
  · rw [second.tracked_iff, first.tracked_iff, List.mem_append, not_or, and_assoc]
  · rw [second.live_iff, first.live_iff]

end Collects

/-- A batch of dead values that nothing else contains is collected if the total covers it. -/
theorem Sound.collects (sound : ledger.Sound heap created []) (nodup : batch.Nodup)
    (occupied : ∀ slot ∈ batch, ledger.entries[slot]?.isSome)
    (enclosed : ∀ owner item, heap.Contains owner item → item ∈ ledger.items batch →
      owner ∈ ledger.items batch)
    (dead : ∀ ref ∈ ledger.items batch, ¬ledger.Live heap ref)
    (covered : heap.childTotal (ledger.items batch) ≤ ledger.total) :
    ∃ removal, ledger.reclaim heap batch = .ok removal ∧
      ledger.Collects heap created (ledger.items batch) removal ∧
      ledger.Vacates batch removal.ledger := by
  obtain ⟨removal, reclaimed, removes, vacates⟩ := sound.reclaim nodup occupied covered
  have tracked : ∀ ref ∈ ledger.items batch, ref ∈ ledger.tracked := fun _ => tracked_of_items
  exact ⟨removal, reclaimed,
    { removes
      nodup := sound.valid.nodup_items nodup
      dead := fun ref member => ⟨tracked ref member, dead ref member⟩
      covered
      sound := sound.removes tracked enclosed removes vacates
      tracked_iff := fun ref => vacates.mem_tracked_iff sound.valid
      live_iff := fun ref => removes.live_iff vacates sound.valid dead }, vacates⟩

end Ledger

end Reclaim
