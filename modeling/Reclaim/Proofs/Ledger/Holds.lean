import Reclaim.Proofs.Ledger.Removal

/-! Who is in a book, and how often each is held. Edges change neither, and an operation on values that
have accounts opens none. -/

set_option autoImplicit false

namespace Reclaim

namespace Book

variable {book next : Book} {item owner : Value} {count total : Nat} {id other : Ident}
  {account : Account} {ref : Ref}

def heldBy (book : Book) (id : Ident) : Nat := ((book.account id).map (·.held)).getD 0

theorem heldBy_post : (book.post total id account).heldBy other =
    if other = id then account.held else book.heldBy other := by
  unfold heldBy post
  simp only
  split <;> rfl

theorem held_get : (book.get ref).held = book.heldBy ref.id := by
  unfold get heldBy
  cases book.account ref.id <;> rfl

theorem held_eq (present : book.account id = some account) : account.held = book.heldBy id := by
  simp [heldBy, present]

theorem heldBy_post_same (same : account.held = book.heldBy id) :
    (book.post total id account).heldBy other = book.heldBy other := by
  rw [heldBy_post, same]
  split
  next here => rw [here]
  next => rfl

theorem heldBy_addHolds (added : book.addHolds item count = .ok next) (id : Ident) :
    next.heldBy id = book.heldBy id + if item.id? = some id then count else 0 := by
  obtain ⟨atom, rfl, rfl⟩ | ⟨ref, rfl, rfl⟩ := addHolds_ok added
  · simp [heldBy, Value.id?]
  · rw [heldBy_post, held_get]
    simp only [id?_shared, Option.some.injEq]
    by_cases here : id = ref.id
    · simp [here]
    · simp [here, Ne.symm here]

theorem heldBy_removeHold (removed : book.removeHold item = .ok next) (id : Ident) :
    book.heldBy id = next.heldBy id + if item.id? = some id then 1 else 0 := by
  obtain ⟨_, ⟨atom, rfl, rfl⟩ | ⟨ref, account, rfl, found, held, rfl⟩⟩ := removeHold_ok removed
  · simp [heldBy, Value.id?]
  · rw [heldBy_post]
    simp only [id?_shared, Option.some.injEq]
    rw [held_eq found] at held ⊢
    by_cases here : id = ref.id
    · simp only [here, if_true]
      omega
    · simp [here, Ne.symm here]

theorem heldBy_register : (book.register item).heldBy id = book.heldBy id := by
  unfold register
  cases item with
  | scalar atom => rfl
  | shared ref => exact heldBy_post_same held_get

theorem heldBy_openOwner : (book.openOwner ref).heldBy id = book.heldBy id := by
  unfold openOwner
  split
  next => rfl
  next unknown => exact heldBy_post_same (by simp [heldBy, unknown])

theorem heldBy_addEdge (added : book.addEdge item owner = .ok next) :
    next.heldBy id = book.heldBy id := by
  obtain ⟨owner, rfl, linked⟩ := addEdge_ok added
  obtain ⟨atom, rfl, rfl⟩ | ⟨ref, rfl, rfl⟩ := link_ok linked
  · exact heldBy_openOwner
  · refine (heldBy_post_same ?_).trans heldBy_openOwner
    exact held_get

theorem heldBy_removeEdge (removed : book.removeEdge item owner = .ok next) :
    next.heldBy id = book.heldBy id := by
  obtain ⟨_, owner, rfl, _, ⟨atom, rfl, rfl⟩ | ⟨ref, account, rfl, found, _, rfl⟩⟩ :=
    removeEdge_ok removed
  · rfl
  · exact heldBy_post_same (show account.held = _ from held_eq found)

theorem heldBy_withdraw {refs : List Ref} {amount : Nat} : (book.withdraw refs amount).heldBy id =
    if id ∈ refs.map Ref.id then 0 else book.heldBy id := by
  unfold heldBy withdraw
  simp only
  split
  · rfl
  · rw [Option.map_map]
    rfl

theorem total_addHolds (added : book.addHolds item count = .ok next) :
    next.total = book.total + count := by
  obtain ⟨_, _, rfl⟩ | ⟨_, _, rfl⟩ := addHolds_ok added <;> rfl

theorem total_removeHold (removed : book.removeHold item = .ok next) :
    book.total = next.total + 1 := by
  obtain ⟨positive, ⟨_, _, rfl⟩ | ⟨_, _, _, _, _, rfl⟩⟩ := removeHold_ok removed
  · exact (Nat.sub_add_cancel positive).symm
  · exact (Nat.sub_add_cancel positive).symm

theorem total_register : (book.register item).total = book.total := by
  cases item <;> rfl

theorem total_openOwner : (book.openOwner ref).total = book.total := by
  unfold openOwner
  split <;> rfl

theorem total_addEdge (added : book.addEdge item owner = .ok next) :
    next.total = book.total + 1 := by
  obtain ⟨owner, rfl, linked⟩ := addEdge_ok added
  obtain ⟨_, _, rfl⟩ | ⟨_, _, rfl⟩ := link_ok linked
  · exact congrArg (· + 1) total_openOwner
  · exact congrArg (· + 1) total_openOwner

theorem total_removeEdge (removed : book.removeEdge item owner = .ok next) :
    book.total = next.total + 1 := by
  obtain ⟨positive, _, _, _, ⟨_, _, rfl⟩ | ⟨_, _, _, _, _, rfl⟩⟩ := removeEdge_ok removed
  · exact (Nat.sub_add_cancel positive).symm
  · exact (Nat.sub_add_cancel positive).symm

section Items

def item? (book : Book) (id : Ident) : Option Ref := (book.account id).map (·.item)

def Knows (book : Book) (value : Value) : Prop :=
  ∀ id, value.id? = some id → (book.item? id).isSome

theorem Knows.congr {value : Value} (knows : book.Knows value)
    (same : ∀ id, next.item? id = book.item? id) : next.Knows value :=
  fun id named => (same id).symm ▸ knows id named

theorem Knows.exists_account (knows : book.Knows (.shared ref)) :
    ∃ account, book.account ref.id = some account :=
  Option.isSome_iff_exists.mp (Option.isSome_map ▸ knows ref.id rfl)

theorem item?_eq (present : book.account id = some account) : book.item? id = some account.item := by
  simp [item?, present]

theorem item?_eq_none : book.item? id = none ↔ book.account id = none := Option.map_eq_none_iff

theorem item?_get (knows : book.Knows (.shared ref)) :
    book.item? ref.id = some (book.get ref).item := by
  obtain ⟨account, present⟩ := knows.exists_account
  rw [item?_eq present, get_eq present]

theorem item?_post : (book.post total id account).item? other =
    if other = id then some account.item else book.item? other := by
  unfold item? post
  simp only
  split <;> rfl

theorem item?_post_same (same : book.item? id = some account.item) :
    (book.post total id account).item? other = book.item? other := by
  rw [item?_post, ← same]
  split
  next here => rw [here]
  next => rfl

theorem item?_addHolds (added : book.addHolds item count = .ok next) (knows : book.Knows item) :
    next.item? id = book.item? id := by
  obtain ⟨atom, rfl, rfl⟩ | ⟨ref, rfl, rfl⟩ := addHolds_ok added
  · rfl
  · exact item?_post_same (item?_get knows)

theorem item?_removeHold (removed : book.removeHold item = .ok next) :
    next.item? id = book.item? id := by
  obtain ⟨_, ⟨atom, rfl, rfl⟩ | ⟨ref, account, rfl, present, _, rfl⟩⟩ := removeHold_ok removed
  · rfl
  · have same := item?_eq present
    exact item?_post_same same

theorem item?_register : (book.register (.shared ref)).item? id =
    if id = ref.id then some (book.get ref).item else book.item? id :=
  item?_post

theorem openOwner_eq (knows : book.Knows (.shared ref)) : book.openOwner ref = book := by
  obtain ⟨account, present⟩ := knows.exists_account
  rw [openOwner, present]

theorem item?_addEdge (added : book.addEdge item owner = .ok next) (knows : book.Knows item)
    (knowsOwner : book.Knows owner) : next.item? id = book.item? id := by
  obtain ⟨owner, rfl, linked⟩ := addEdge_ok added
  rw [openOwner_eq knowsOwner] at linked
  obtain ⟨atom, rfl, rfl⟩ | ⟨ref, rfl, rfl⟩ := link_ok linked
  · rfl
  · exact item?_post_same (item?_get knows)

theorem item?_removeEdge (removed : book.removeEdge item owner = .ok next) :
    next.item? id = book.item? id := by
  obtain ⟨_, owner, rfl, _, ⟨atom, rfl, rfl⟩ | ⟨ref, account, rfl, present, _, rfl⟩⟩ :=
    removeEdge_ok removed
  · rfl
  · have same := item?_eq present
    exact item?_post_same same

theorem item?_withdraw {refs : List Ref} {amount : Nat} : (book.withdraw refs amount).item? id =
    if id ∈ refs.map Ref.id then none else book.item? id := by
  unfold item? withdraw
  simp only
  split
  · rfl
  · rw [Option.map_map]
    rfl

end Items

end Book

end Reclaim
