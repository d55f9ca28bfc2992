import Mathlib.Data.List.Nodup
import Reclaim.Budget
import Reclaim.Proofs.Ledger.Balance

/-! What the ledger tells about a value is what its account says. Ledgers with equal books may keep
the same values in different slots, and tell the same about each of them. -/

set_option autoImplicit false

namespace Reclaim

namespace Ledger

variable {ledger first second : Ledger} {ref : Ref} {refs : List Ref}

def isPending (ledger : Ledger) (value : Value) : Bool :=
  (ledger.slotOf? value).any (ledger.pending.contains ·)

theorem not_contains_of_idle (idle : ledger.hasPending = false) (slot : Slot) :
    ledger.pending.contains slot = false := by
  rw [hasPending, Bool.not_eq_false', Std.ExtTreeSet.isEmpty_iff] at idle
  rw [idle, Std.ExtTreeSet.contains_empty]

theorem isPending_of_idle {value : Value} (idle : ledger.hasPending = false) :
    ledger.isPending value = false := by
  unfold isPending
  cases ledger.slotOf? value with
  | none => rfl
  | some slot => exact not_contains_of_idle idle slot

theorem length_tracked (ledger : Ledger) : ledger.tracked.length = ledger.trackedCount := by
  simp [trackedCount, tracked]

namespace Valid

theorem held_eq_book (valid : ledger.Valid) (ref : Ref) :
    ledger.held (.shared ref) = ((ledger.book.account ref.id).map (·.held)).getD 0 := by
  have located : ledger.slotOf? (.shared ref) = ledger.slot? ref.id := rfl
  rw [held, located]
  cases known : ledger.slot? ref.id with
  | none => rw [book_account_none known]; rfl
  | some slot =>
    obtain ⟨entry, found, _⟩ := valid.entry_of_slot? known
    rw [book_account known found, Option.map_some, Option.getD_some, heldAt, found]
    rfl

theorem isPending_eq_book (valid : ledger.Valid) (ref : Ref) :
    ledger.isPending (.shared ref) = ((ledger.book.account ref.id).map (·.pending)).getD false := by
  have located : ledger.slotOf? (.shared ref) = ledger.slot? ref.id := rfl
  rw [isPending, located]
  cases known : ledger.slot? ref.id with
  | none => rw [book_account_none known]; rfl
  | some slot =>
    obtain ⟨entry, found, _⟩ := valid.entry_of_slot? known
    rw [book_account known found]
    rfl

theorem tracked_of_account {id : Ident} {account : Account} (valid : ledger.Valid)
    (known : ledger.book.account id = some account) :
    account.item.id = id ∧ account.item ∈ ledger.tracked := by
  cases index : ledger.slot? id with
  | none =>
    rw [book_account_none index] at known
    cases known
  | some slot =>
    obtain ⟨entry, found, same⟩ := valid.entry_of_slot? index
    rw [book_account index found] at known
    cases known
    exact ⟨same, tracked_of_entry found⟩

theorem hasPending_iff (valid : ledger.Valid) : ledger.hasPending ↔
    ∃ id account, ledger.book.account id = some account ∧ account.pending := by
  constructor
  · intro busy
    have nonempty : ledger.pending ≠ ∅ := fun empty => by simp [hasPending, empty] at busy
    obtain ⟨slot, pending⟩ : ∃ slot, slot ∈ ledger.pending := by
      refine Classical.byContradiction fun none => nonempty (Std.ExtTreeSet.ext_mem fun slot => ?_)
      exact ⟨fun member => absurd ⟨slot, member⟩ none, fun member => by simp at member⟩
    obtain ⟨entry, found⟩ := valid.pending_mem slot pending
    exact ⟨entry.item.id, _, book_account (valid.slot_of_entry found) found,
      Std.ExtTreeSet.contains_iff_mem.mpr pending⟩
  · rintro ⟨id, account, known, pending⟩
    cases busy : ledger.hasPending with
    | true => rfl
    | false =>
      obtain ⟨rfl, _⟩ := valid.tracked_of_account known
      have idle := valid.isPending_eq_book account.item
      rw [isPending_of_idle busy, known] at idle
      exact idle.trans pending

theorem nodup_tracked (valid : ledger.Valid) : ledger.tracked.Nodup := by
  refine List.Nodup.map_on (fun first inFirst second inSecond same => ?_) nodup_toList
  have found := Std.ExtTreeMap.mem_toList_iff_getElem?_eq_some.mp inFirst
  have found' := Std.ExtTreeMap.mem_toList_iff_getElem?_eq_some.mp inSecond
  have known := valid.slot_of_entry found
  rw [same, valid.slot_of_entry found'] at known
  have slots := Option.some.inj known
  rw [slots, found] at found'
  exact Prod.ext slots.symm (Option.some.inj found')

theorem tracked_perm (valid : first.Valid) (valid' : second.Valid) (nodup : refs.Nodup)
    (included : ∀ ref ∈ refs, ref ∈ first.tracked)
    (kept : ∀ ref, ref ∈ second.tracked ↔ ref ∈ first.tracked ∧ ref ∉ refs) :
    first.tracked.Perm (refs ++ second.tracked) := by
  have apart : refs.Disjoint second.tracked := fun ref member tracked => ((kept ref).mp tracked).2 member
  refine (List.perm_ext_iff_of_nodup valid.nodup_tracked
    (List.nodup_append'.mpr ⟨nodup, valid'.nodup_tracked, apart⟩)).mpr fun ref => ?_
  rw [List.mem_append, kept]
  by_cases member : ref ∈ refs
  · simp [member, included ref member]
  · simp [member]

end Valid

/-- The ledgers cannot be told apart by what they tell about values. -/
structure SameByValue (first second : Ledger) : Prop where
  total : first.total = second.total
  tracked : ∀ ref, ref ∈ first.tracked ↔ ref ∈ second.tracked
  held : ∀ ref, first.held (.shared ref) = second.held (.shared ref)
  edges : ∀ item owner, first.edges (.shared item) (.shared owner) =
    second.edges (.shared item) (.shared owner)
  pending : ∀ ref, first.isPending (.shared ref) = second.isPending (.shared ref)

namespace Valid

theorem sameByValue (valid : first.Valid) (valid' : second.Valid) (books : first.book = second.book) :
    first.SameByValue second where
  total := congrArg Book.total books
  tracked ref := by rw [valid.mem_tracked_iff, valid'.mem_tracked_iff, books]
  held ref := by rw [valid.held_eq_book, valid'.held_eq_book, books]
  edges item owner := by rw [valid.edges_eq, valid'.edges_eq, books]
  pending ref := by rw [valid.isPending_eq_book, valid'.isPending_eq_book, books]

theorem hasPending_congr (valid : first.Valid) (valid' : second.Valid)
    (books : first.book = second.book) : first.hasPending = second.hasPending := by
  rw [Bool.eq_iff_iff, valid.hasPending_iff, valid'.hasPending_iff, books]

theorem trackedCount_congr (valid : first.Valid) (valid' : second.Valid)
    (books : first.book = second.book) : first.trackedCount = second.trackedCount := by
  rw [← length_tracked, ← length_tracked]
  exact ((List.perm_ext_iff_of_nodup valid.nodup_tracked valid'.nodup_tracked).mpr
    (valid.sameByValue valid' books).tracked).length_eq

theorem check_congr (valid : first.Valid) (valid' : second.Valid) (books : first.book = second.book)
    (budget : Budget) : budget.check first = budget.check second := by
  have total : first.total = second.total := congrArg Book.total books
  simp only [Budget.check, total, valid.trackedCount_congr valid' books]

end Valid

end Ledger

def Book.settled (book : Book) : Book where
  total := book.total
  account id := (book.account id).map ({ · with pending := false })

namespace Ledger

variable {ledger : Ledger}

theorem book_settled : book { ledger with pending := ∅ } = ledger.book.settled := by
  apply Book.ext
  · rfl
  · funext id
    have located : find? { ledger with pending := ∅ } id = ledger.find? id := rfl
    have empty : ∀ slot, (∅ : NodeSet).contains slot = false := fun _ => Std.ExtTreeSet.contains_empty
    simp only [book, Book.settled, located, Option.map_map]
    exact congrArg (Option.map · _) (funext fun found => Account.ext rfl rfl (empty found.1) rfl)

theorem book_settled_of_idle (idle : ledger.hasPending = false) : ledger.book.settled = ledger.book := by
  apply Book.ext
  · rfl
  · funext id
    simp only [book, Book.settled, Option.map_map]
    exact congrArg (Option.map · _) (funext fun found =>
      Account.ext rfl rfl (not_contains_of_idle idle found.1).symm rfl)

end Ledger

end Reclaim
