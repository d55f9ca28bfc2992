import Reclaim.Proofs.Collect.Cache
import Reclaim.Proofs.Ledger.Agreement

/-! Counters with equal books answer alike, whatever their strategies and wherever they keep the
values. They fail alike as well, and after a settle that succeeds their books are equal again. -/

set_option autoImplicit false

namespace Reclaim

namespace Counter

section Counting

variable {counter first second : Counter} {heap other : Heap} {created created' : Nat}
  {owed owed' : List Due} {item owner : Value} {amount : Nat}

def SameBook (first second : Counter) : Prop := first.ledger.book = second.ledger.book

theorem Sound.book_register (sound : counter.Sound heap created owed) :
    (counter.register item).ledger.book = counter.ledger.book.register item :=
  sound.ledger.valid.book_register sound.ledger.closed

theorem Sound.book_addHolds (sound : counter.Sound heap created owed) :
    (counter.addHolds item amount).map (·.ledger.book) =
      (counter.ledger.book.addHolds item amount).mapError .aborted := by
  rw [← sound.ledger.valid.book_addHolds sound.ledger.closed]
  unfold Counter.addHolds
  cases counter.ledger.addHolds item amount <;> rfl

theorem Sound.book_removeHold (sound : counter.Sound heap created owed) :
    (counter.removeHold item).map (·.ledger.book) =
      (counter.ledger.book.removeHold item).mapError .refused := by
  rw [← sound.ledger.valid.book_removeHold]
  unfold Counter.removeHold
  cases counter.ledger.removeHold item <;> rfl

theorem Sound.book_addEdge (sound : counter.Sound heap created owed) :
    (counter.addEdge item owner).map (·.ledger.book) = counter.ledger.book.addEdge item owner := by
  rw [← sound.ledger.valid.book_addEdge sound.ledger.closed]
  unfold Counter.addEdge
  cases counter.ledger.addEdge item owner <;> rfl

theorem Sound.book_removeEdge (sound : counter.Sound heap created owed) :
    (counter.removeEdge item owner).map (·.ledger.book) =
      (counter.ledger.book.removeEdge item owner).mapError .refused := by
  rw [← sound.ledger.valid.book_removeEdge]
  unfold Counter.removeEdge
  cases counter.ledger.removeEdge item owner <;> rfl

theorem alike_of_map {result result' : Except Failure Counter}
    (books : result.map (·.ledger.book) = result'.map (·.ledger.book)) :
    Alike SameBook result result' := by
  cases result <;> cases result' <;>
    simp only [Except.map, reduceCtorEq, Except.error.injEq, Except.ok.injEq] at books
  case error.error => exact books
  case ok.ok => exact books

variable (sound : first.Sound heap created owed) (sound' : second.Sound other created' owed')
  (books : first.SameBook second)

include sound sound' books

theorem sameBook_register : (first.register item).SameBook (second.register item) := by
  unfold SameBook
  rw [sound.book_register, sound'.book_register, books]

theorem alike_addHolds : Alike SameBook (first.addHolds item amount) (second.addHolds item amount) :=
  alike_of_map (by rw [sound.book_addHolds, sound'.book_addHolds, books])

theorem alike_removeHold : Alike SameBook (first.removeHold item) (second.removeHold item) :=
  alike_of_map (by rw [sound.book_removeHold, sound'.book_removeHold, books])

theorem alike_addEdge : Alike SameBook (first.addEdge item owner) (second.addEdge item owner) :=
  alike_of_map (by rw [sound.book_addEdge, sound'.book_addEdge, books])

theorem alike_removeEdge :
    Alike SameBook (first.removeEdge item owner) (second.removeEdge item owner) :=
  alike_of_map (by rw [sound.book_removeEdge, sound'.book_removeEdge, books])

end Counting

end Counter

structure Settlement.Agrees (first second : Settlement) : Prop where
  result : first.result = second.result
  book : ∀ count, first.result = .ok count → first.counter.SameBook second.counter
  heap : ∀ count, first.result = .ok count → first.heap.Same second.heap
  removed : ∀ count, first.result = .ok count → first.removed.Perm second.removed

namespace Ledger

variable {first second : Ledger} {heap other : Heap} {ref : Ref}

theorem SameByValue.live_iff (alike : first.SameByValue second) (same : heap.Same other) :
    first.Live heap ref ↔ second.Live other ref := by
  simp only [Live, alike.tracked, alike.held, Heap.Leads, same.contains_eq]

theorem perm_of_dead {refs others : List Ref} (alike : first.SameByValue second)
    (same : heap.Same other) (nodup : refs.Nodup) (nodup' : others.Nodup)
    (complete : ∀ ref, ref ∈ refs ↔ ref ∈ first.tracked ∧ ¬first.Live heap ref)
    (complete' : ∀ ref, ref ∈ others ↔ ref ∈ second.tracked ∧ ¬second.Live other ref) :
    refs.Perm others := by
  refine (List.perm_ext_iff_of_nodup nodup nodup').mpr fun ref => ?_
  rw [complete, complete', alike.tracked, alike.live_iff same]

theorem Collects.trackedCount_eq {ledger : Ledger} {created : Nat} {refs : List Ref} {removal : Removal}
    (collects : ledger.Collects heap created refs removal) (valid : ledger.Valid) :
    ledger.trackedCount = refs.length + removal.ledger.trackedCount := by
  rw [← length_tracked, ← length_tracked, ← List.length_append]
  exact (valid.tracked_perm collects.sound.valid collects.nodup
    (fun ref member => (collects.dead ref member).1) collects.tracked_iff).length_eq

end Ledger

namespace Counter

variable {counter first second : Counter} {heap other : Heap} {created created' : Nat}

/-- A pass that removes what another one would is not refused. -/
theorem Collects.not_refuses {refs : List Ref} {settlement refused : Settlement}
    (alike : first.ledger.SameByValue second.ledger) (same : heap.Same other)
    (collects : first.Collects heap created refs settlement) : ¬second.Refuses other refused := by
  rintro ⟨_, others, nodup, dead, short⟩
  have included : ∀ ref ∈ others, ref ∈ refs := fun ref member => by
    rw [collects.complete, alike.tracked, alike.live_iff same]
    exact dead ref member
  have covered := collects.collects.covered
  rw [alike.total, same.childTotal_eq] at covered
  exact absurd (Nat.le_trans (Heap.childTotal_le nodup included) covered) (Nat.not_le.mpr short)

theorem Collects.agrees {refs others : List Ref} {settlement settlement' : Settlement}
    (books : first.SameBook second)
    (alike : first.ledger.SameByValue second.ledger) (same : heap.Same other)
    (collects : first.Collects heap created refs settlement)
    (collects' : second.Collects other created' others settlement') :
    settlement.Agrees settlement' := by
  have perm := Ledger.perm_of_dead alike same collects.collects.nodup collects'.collects.nodup
    collects.complete collects'.complete
  have total : heap.childTotal refs = other.childTotal others :=
    (Heap.childTotal_perm perm).trans (congrFun same.childTotal_eq others)
  have book : settlement.counter.ledger.book = settlement'.counter.ledger.book := by
    have left := collects.collects.removes.book
    have right := collects'.collects.removes.book
    simp only at left right
    rw [left, right, show first.ledger.book = second.ledger.book from books, total]
    exact Book.withdraw_perm fun ref => perm.mem_iff
  refine ⟨?_, fun _ _ => book, fun _ _ => ?_, fun _ _ => ?_⟩
  · rw [collects.result, collects'.result]
    exact congrArg Except.ok (congrArg Book.total book)
  · have left := collects.collects.removes.released
    have right := collects'.collects.removes.released
    simp only at left right
    rw [left, right]
    exact same.releaseAll fun ref => perm.mem_iff
  · have left := collects.collects.removes.removed
    have right := collects'.collects.removes.removed
    simp only at left right
    rw [left, right, same.childCount_eq]
    exact perm.map _

theorem skips_agree (books : first.SameBook second) (same : heap.Same other) :
    (first.skip heap).Agrees (second.skip other) where
  result := congrArg Except.ok (congrArg Book.total books)
  book _ _ := books
  heap _ _ := same
  removed _ _ := .refl []

section Settling

variable (sound : first.Sound heap created []) (sound' : second.Sound other created' [])
  (books : first.SameBook second) (same : heap.Same other)

include sound sound' books same

theorem passes_agree (passes : first.ledger.hasPending || first.eager)
    (passes' : second.ledger.hasPending || second.eager) :
    (first.settle heap).Agrees (second.settle other) := by
  have cleared : first.cleared.SameBook second.cleared := by
    simp only [SameBook, Counter.cleared, Ledger.book_settled]
    exact congrArg Book.settled books
  have alike := sound.cleared.ledger.valid.sameByValue sound'.cleared.ledger.valid cleared
  have alike' := sound'.cleared.ledger.valid.sameByValue sound.cleared.ledger.valid cleared.symm
  obtain ⟨refs, collects⟩ | refuses := settle_exact sound passes
  · obtain ⟨others, collects'⟩ | refuses' := settle_exact sound' passes'
    · exact collects.agrees cleared alike same collects'
    -- A pass that is refused has more to remove than the total covers, and the other pass would have removed the
    -- same.
    · exact absurd refuses' (collects.not_refuses alike same)
  · obtain ⟨others, collects'⟩ | refuses' := settle_exact sound' passes'
    · exact absurd refuses (collects'.not_refuses alike' same.symm)
    · have failed : ∀ count, (first.settle heap).result ≠ .ok count := fun count settled => by
        rw [refuses.result] at settled
        cases settled
      refine ⟨refuses.result.trans refuses'.result.symm, ?_, ?_, ?_⟩ <;>
        exact fun count settled => absurd settled (failed count)

/-- A pass that finds nothing dead has the outcome of no pass. -/
theorem pass_agrees_skip (passes : first.ledger.hasPending || first.eager)
    (idle : second.ledger.hasPending = false)
    (live : ∀ ref ∈ second.ledger.tracked, second.ledger.Live other ref) :
    (first.settle heap).Agrees (second.skip other) := by
  have alike := sound.ledger.valid.sameByValue sound'.ledger.valid books
  have none_dead : ∀ ref, ¬(ref ∈ first.ledger.tracked ∧ ¬first.ledger.Live heap ref) := by
    rintro ref ⟨tracked, dead⟩
    rw [alike.live_iff same] at dead
    exact dead (live ref ((alike.tracked ref).mp tracked))
  obtain ⟨refs, collects⟩ | ⟨_, refs, _, dead, short⟩ := settle_exact sound passes
  · obtain rfl : refs = [] := List.eq_nil_iff_forall_not_mem.mpr fun ref member =>
      none_dead ref ((collects.complete ref).mp member)
    have book : (first.settle heap).counter.SameBook second := by
      have removed : (first.settle heap).counter.ledger.book = _ := collects.collects.removes.book
      have settled : first.cleared.ledger.book = first.ledger.book.settled := Ledger.book_settled
      have same : first.ledger.book = second.ledger.book := books
      rw [SameBook, removed, settled, same, Ledger.book_settled_of_idle idle]
      exact Book.withdraw_nil
    refine ⟨collects.result.trans (congrArg Except.ok (congrArg Book.total book)), fun _ _ => book,
      fun _ _ => ?_, fun _ _ => ?_⟩
    · have released : (first.settle heap).heap = heap := collects.collects.removes.released
      rw [released]
      exact same
    · have removed : (first.settle heap).removed = [] := collects.collects.removes.removed
      rw [removed]
      exact .refl []
  · obtain rfl : refs = [] := List.eq_nil_iff_forall_not_mem.mpr fun ref member =>
      none_dead ref (dead ref member)
    exact absurd short (Nat.not_lt_zero _)

/-- Counters that are equally eager settle alike. -/
theorem settle_agrees (eager : first.eager = second.eager) :
    (first.settle heap).Agrees (second.settle other) := by
  have pending := sound.ledger.valid.hasPending_congr sound'.ledger.valid books
  by_cases passes : first.ledger.hasPending || first.eager
  · exact passes_agree sound sound' books same passes (pending ▸ eager ▸ passes)
  · rw [skip_of_idle passes, skip_of_idle (pending ▸ eager ▸ passes)]
    exact skips_agree books same

end Settling

end Counter

end Reclaim
