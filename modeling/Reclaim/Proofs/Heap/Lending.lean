import Mathlib.Data.List.Nodup
import Reclaim.Proofs.Arena.Blocks
import Reclaim.Proofs.Heap.Changes

/-! Who has the blocks of the pool. A buffer that was rented has its block until it is released for the
first time; then the block is free, on top of the others. Buffers that were not rented leave the pool as
it is, and so does a second release. -/

set_option autoImplicit false

namespace Reclaim

theorem Buffer.drained_pooled (buffer : Buffer) : buffer.drained.pooled = buffer.pooled := by
  unfold drained release
  split <;> rfl

theorem Buffer.drained_released (buffer : Buffer) : buffer.drained.released = true := by
  unfold drained release
  split
  next released => exact released
  next => rfl

/-- What holds of one member of a list and of it no more, while it holds of the others as before. -/
theorem countP_add_one {ids : List Ident} {id : Ident} {first second : Ident → Bool} (nodup : ids.Nodup)
    (member : id ∈ ids) (held : first id = true) (gone : second id = false)
    (same : ∀ other, other ≠ id → second other = first other) :
    ids.countP second + 1 = ids.countP first := by
  have others : (ids.erase id).countP second = (ids.erase id).countP first :=
    List.countP_congr fun other listed => by
      rw [same other fun here => nodup.not_mem_erase (here ▸ listed)]
  rw [(List.perm_cons_erase member).countP_eq, (List.perm_cons_erase member).countP_eq,
    List.countP_cons_of_neg (by simp [gone]), List.countP_cons_of_pos held, others]

namespace Heap

variable {heap : Heap} {ref : Ref} {refs : List Ref} {rentals : List Ident} {collections : List Ref}
  {blocks : Nat} {id other : Ident}

/-- Buffers have been rented, values collected and blocks made. What rented buffers have not given back is
counted, and the other blocks are free. -/
structure Lends (heap : Heap) (rentals : List Ident) (collections : List Ref) (blocks : Nat) : Prop where
  nodup : rentals.Nodup
  pooled_iff : ∀ id, (heap.buffer id).pooled = true ↔ id ∈ rentals
  released_iff : ∀ id ∈ rentals, (heap.buffer id).released = true ↔ .buffer id ∈ collections
  rented : heap.pool.rented = rentals.countP fun id => !(heap.buffer id).released
  made : heap.pool.rented + heap.pool.available = blocks

theorem buffer_release : (heap.release ref).buffer id =
    if ref = .buffer id then (heap.buffer id).drained else heap.buffer id := by
  have released : (heap.releaseAll [ref]).buffer id = _ := buffer_releaseAll
  refine released.trans (if_congr ?_ rfl rfl)
  rw [List.mem_singleton, eq_comm]

theorem pool_release_buffer : (heap.release (.buffer id)).pool =
    if (heap.buffer id).borrows then heap.pool.takeBack (heap.buffer id).block else heap.pool := by
  show ((heap.buffer id).release heap.pool).2 = _
  unfold Buffer.release Buffer.borrows
  cases (heap.buffer id).released <;> cases (heap.buffer id).pooled <;> rfl

theorem buffer_release_container :
    (heap.release (.container id)).buffer other = heap.buffer other := rfl

theorem buffer_release_of_ne (apart : other ≠ id) :
    (heap.release (.buffer id)).buffer other = heap.buffer other := by
  rw [buffer_release, if_neg (by simpa using Ne.symm apart)]

theorem Lends.release (lends : heap.Lends rentals collections blocks) (ref : Ref) :
    (heap.release ref).Lends rentals (collections ++ [ref]) blocks := by
  cases ref with
  | container id => exact { lends with
      released_iff := by simpa [buffer_release_container] using lends.released_iff }
  | buffer id =>
    have pooled_iff : ∀ other, ((heap.release (.buffer id)).buffer other).pooled = true ↔ other ∈ rentals := by
      intro other
      rw [buffer_release, ← lends.pooled_iff]
      split
      · rw [Buffer.drained_pooled]
      · rfl
    have released_iff : ∀ other ∈ rentals, ((heap.release (.buffer id)).buffer other).released = true ↔
        .buffer other ∈ collections ++ [.buffer id] := by
      intro other rented
      by_cases here : other = id
      · subst here
        simp [buffer_release, Buffer.drained_released]
      · rw [buffer_release_of_ne here, lends.released_iff other rented]
        simp [here]
    -- Only a rented buffer that has not been released counts one less and leaves a free block.
    by_cases borrows : (heap.buffer id).borrows = true
    · have kept : (heap.buffer id).pooled = true ∧ (heap.buffer id).released = false := by
        simpa [Buffer.borrows] using borrows
      have fewer : rentals.countP (fun other => !((heap.release (.buffer id)).buffer other).released) + 1 =
          rentals.countP fun other => !(heap.buffer other).released :=
        countP_add_one lends.nodup ((lends.pooled_iff id).mp kept.1) (by simp [kept.2])
          (by simp [buffer_release, Buffer.drained_released])
          fun other apart => by rw [buffer_release_of_ne apart]
      have pool : (heap.release (.buffer id)).pool = _ := pool_release_buffer.trans (if_pos borrows)
      have before := lends.rented
      have made := lends.made
      refine ⟨lends.nodup, pooled_iff, released_iff, ?_, ?_⟩ <;> rw [pool]
      · show heap.pool.rented - 1 = _
        omega
      · show heap.pool.rented - 1 + (heap.pool.available + 1) = blocks
        omega
    · have pool : (heap.release (.buffer id)).pool = heap.pool := pool_release_buffer.trans (if_neg borrows)
      have same : ∀ other ∈ rentals, ((heap.release (.buffer id)).buffer other).released =
          (heap.buffer other).released := by
        intro other rented
        by_cases here : other = id
        · subst here
          have pooled := (lends.pooled_iff other).mpr rented
          rw [buffer_release, if_pos rfl, Buffer.drained_released]
          simpa [Buffer.borrows, pooled] using borrows
        · rw [buffer_release_of_ne here]
      refine ⟨lends.nodup, pooled_iff, released_iff, ?_, pool ▸ lends.made⟩
      rw [pool, lends.rented]
      exact List.countP_congr fun other rented => by rw [same other rented]

theorem Lends.releaseAll (lends : heap.Lends rentals collections blocks) (refs : List Ref) :
    (heap.releaseAll refs).Lends rentals (collections ++ refs) blocks := by
  induction refs generalizing heap collections with
  | nil => rwa [List.append_nil]
  | cons ref rest ih =>
    have later := ih (lends.release ref)
    rwa [List.append_assoc, List.singleton_append] at later

end Heap

end Reclaim
