import Reclaim.Proofs.Ledger.Valid

/-! A ledger as it looks from outside, by value and without slots: the total, and an account for
each tracked identity. The counting rules are stated once more on books, and every operation of
the ledger follows them, so that ledgers with equal books cannot be told apart. -/

set_option autoImplicit false

namespace Reclaim

/-- What is recorded of one value. Owners are known by their identities. -/
@[ext] structure Account where
  item : Ref
  held : Nat := 0
  pending : Bool := false
  owners : Ident → Nat := fun _ => 0

@[ext] structure Book where
  total : Nat
  account : Ident → Option Account

namespace Book

def get (book : Book) (ref : Ref) : Account := (book.account ref.id).getD { item := ref }

def post (book : Book) (total : Nat) (id : Ident) (account : Account) : Book where
  total
  account other := if other = id then some account else book.account other

def addHolds (book : Book) (item : Value) (count : Nat) : Except Abort Book := do
  let total ← addCount book.total count
  match item.ref? with
  | none => return { book with total }
  | some ref =>
    let held ← addCount (book.get ref).held count
    return book.post total ref.id { book.get ref with held, pending := false }

def removeHold (book : Book) (item : Value) : Except LedgerError Book :=
  match item.ref? with
  | none =>
    if book.total = 0 then .error .totalUnderflow
    else .ok { book with total := book.total - 1 }
  | some ref =>
    match book.account ref.id with
    | none => .error (.holdUnderflow ref.id)
    | some account =>
      if account.held = 0 then .error (.holdUnderflow ref.id)
      else if book.total = 0 then .error .totalUnderflow
      else
        .ok (book.post (book.total - 1) ref.id
          { account with held := account.held - 1, pending := account.pending || account.held == 1 })

def register (book : Book) (item : Value) : Book :=
  match item.ref? with
  | none => book
  | some ref => book.post book.total ref.id { book.get ref with pending := true }

def openOwner (book : Book) (ref : Ref) : Book :=
  match book.account ref.id with
  | some _ => book
  | none => book.post book.total ref.id { item := ref, pending := true }

def link (book : Book) (item : Value) (owner : Ident) : Except Abort Book := do
  let total ← addCount book.total 1
  match item.ref? with
  | none => return { book with total }
  | some ref =>
    let edges ← addCount ((book.get ref).owners owner) 1
    return book.post total ref.id { book.get ref with
      owners := fun other => if other = owner then edges else (book.get ref).owners other }

def addEdge (book : Book) (item owner : Value) : Except Failure Book :=
  match owner.container? with
  | none => .error (.refused (.notContainer owner))
  | some id => ((book.openOwner (.container id)).link item id).mapError .aborted

def removeEdge (book : Book) (item owner : Value) : Except LedgerError Book :=
  match owner.container? with
  | none => .error (.notContainer owner)
  | some ownerId =>
    match item.ref? with
    | none =>
      if (book.account ownerId).isNone then .error (.untrackedOwner ownerId)
      else if book.total = 0 then .error .totalUnderflow
      else .ok { book with total := book.total - 1 }
    | some ref =>
      match book.account ownerId, book.account ref.id with
      | some _, some account =>
        if account.owners ownerId = 0 then .error (.missingEdge ref.id ownerId)
        else if book.total = 0 then .error .totalUnderflow
        else
          .ok (book.post (book.total - 1) ref.id { account with
            pending := account.pending || account.held == 0
            owners := fun other =>
              if other = ownerId then account.owners other - 1 else account.owners other })
      | _, _ => .error (.missingEdge ref.id ownerId)

@[simp] theorem post_post {book : Book} {total total' : Nat} {id : Ident}
    {account account' : Account} :
    (book.post total id account).post total' id account' = book.post total' id account' := by
  apply Book.ext
  · rfl
  · funext other
    simp only [post]
    split <;> rfl

theorem account_post {book : Book} {total : Nat} {id other : Ident} {account : Account} :
    (book.post total id account).account other =
      if other = id then some account else book.account other := rfl

theorem get_eq {book : Book} {ref : Ref} {account : Account}
    (known : book.account ref.id = some account) : book.get ref = account := by
  simp [get, known]

theorem post_self {book : Book} {id : Ident} {account : Account}
    (known : book.account id = some account) : book.post book.total id account = book := by
  apply Book.ext
  · rfl
  · funext other
    rw [account_post]
    split
    next here => rw [here, known]
    next => rfl

end Book

namespace Ledger

variable {ledger next : Ledger} {ref : Ref} {slot : Slot} {entry : Entry} {id : Ident}

def toAccount (ledger : Ledger) (slot : Slot) (entry : Entry) : Account where
  item := entry.item
  held := entry.held
  pending := ledger.pending.contains slot
  owners id := ((ledger.slot? id).bind fun owner => entry.owners[owner]?).getD 0

def book (ledger : Ledger) : Book where
  total := ledger.total
  account id := (ledger.find? id).map fun (slot, entry) => ledger.toAccount slot entry

theorem book_account (known : ledger.slot? id = some slot)
    (found : ledger.entries[slot]? = some entry) :
    ledger.book.account id = some (ledger.toAccount slot entry) := by
  have both : ledger.find? id = some (slot, entry) := find?_eq_some.mpr ⟨known, found⟩
  simp [book, both]

theorem book_account_none (untracked : ledger.slot? id = none) : ledger.book.account id = none := by
  simp [book, find?, untracked]

namespace Valid

theorem slot?_inj {other : Ident} (valid : ledger.Valid) (first : ledger.slot? id = some slot)
    (second : ledger.slot? other = some slot) : id = other := by
  obtain ⟨entry, found, rfl⟩ := valid.entry_of_slot? first
  obtain ⟨entry', found', rfl⟩ := valid.entry_of_slot? second
  rw [found] at found'
  cases found'
  rfl

theorem account_eq_none (valid : ledger.Valid) :
    ledger.book.account id = none ↔ ledger.slot? id = none := by
  cases known : ledger.slot? id with
  | none => simp [book_account_none known]
  | some slot =>
    obtain ⟨entry, found, _⟩ := valid.entry_of_slot? known
    simp [book_account known found]

/-- A change in one slot is a change of one account. -/
theorem book_eq_post (valid : ledger.Valid) (next : Ledger) (known : ledger.slot? id = some slot)
    (same : ∀ other, next.slot? other = ledger.slot? other)
    (entries : ∀ other ≠ slot, next.entries[other]? = ledger.entries[other]?)
    (pending : ∀ other ≠ slot, next.pending.contains other = ledger.pending.contains other)
    (found : next.entries[slot]? = some entry) :
    next.book = ledger.book.post next.total id (next.toAccount slot entry) := by
  apply Book.ext
  · rfl
  · funext other
    simp only [Book.post]
    split
    next here =>
      subst here
      exact book_account ((same other).trans known) found
    next elsewhere =>
      cases known' : ledger.slot? other with
      | none => rw [book_account_none known', book_account_none ((same other).trans known')]
      | some slot' =>
        have apart : slot' ≠ slot := fun here => elsewhere (valid.slot?_inj (here ▸ known') known)
        obtain ⟨entry', found', _⟩ := valid.entry_of_slot? known'
        rw [book_account known' found',
          book_account ((same other).trans known') ((entries slot' apart).trans found')]
        simp only [toAccount, same, pending slot' apart]

theorem book_insert (valid : ledger.Valid) (closed : ledger.Closed)
    (untracked : ledger.slot? ref.id = none) :
    (ledger.insert ref).book = ledger.book.post ledger.total ref.id { item := ref } := by
  have empty := valid.nextSlot_empty
  apply Book.ext
  · rfl
  · funext other
    simp only [Book.post]
    split
    next here =>
      subst here
      have known : (ledger.insert ref).slot? ref.id = some ledger.nextSlot := by simp [slot?_insert]
      have found : (ledger.insert ref).entries[ledger.nextSlot]? = some { item := ref } := by
        simp [getElem?_insert]
      -- Pending slots are in use, so the one that is taken now is not pending from before.
      have idle : (ledger.insert ref).pending.contains ledger.nextSlot = false := by
        rw [Bool.eq_false_iff, ne_eq, Std.ExtTreeSet.contains_iff_mem]
        intro pending
        obtain ⟨entry, found⟩ := valid.pending_mem ledger.nextSlot pending
        rw [empty] at found
        cases found
      rw [book_account known found]
      simp only [toAccount, idle]
      congr
      funext owner
      cases (ledger.insert ref).slot? owner <;> simp
    next elsewhere =>
      have same : (ledger.insert ref).slot? other = ledger.slot? other := by
        rw [slot?_insert, if_neg (Ne.symm elsewhere)]
      cases known : ledger.slot? other with
      | none => rw [book_account_none known, book_account_none (same.trans known)]
      | some slot =>
        obtain ⟨entry, found, _⟩ := valid.entry_of_slot? known
        have apart : ledger.nextSlot ≠ slot := by
          rintro rfl
          rw [empty] at found
          cases found
        have kept : (ledger.insert ref).entries[slot]? = some entry := by
          rw [getElem?_insert, if_neg apart, found]
        rw [book_account known found, book_account (same.trans known) kept]
        simp only [toAccount, Option.some.injEq, Account.mk.injEq, true_and]
        refine ⟨rfl, ?_⟩
        funext owner
        rw [slot?_insert]
        split
        next here =>
          -- No edge was recorded from the slot that is taken now.
          have unowned : entry.owners[ledger.nextSlot]? = none := Closed.unowned closed empty found
          simp [← here, untracked, unowned]
        next => rfl

theorem book_update_mark (valid : ledger.Valid) (change : Entry → Entry) (marks : Prop)
    [Decidable marks] (known : ledger.slot? id = some slot)
    (found : ledger.entries[slot]? = some entry) :
    book (if marks then (ledger.update slot change).markPending slot else ledger.update slot change) =
      ledger.book.post ledger.total id { ledger.toAccount slot (change entry) with
        pending := (ledger.toAccount slot entry).pending || decide marks } := by
  have kept : ∀ other ≠ slot, (ledger.update slot change).entries[other]? = ledger.entries[other]? :=
    fun other apart => by rw [getElem?_update, if_neg (Ne.symm apart)]
  have changed := getElem?_update_self change found
  by_cases mark : marks
  · have others : ∀ other ≠ slot, ((ledger.update slot change).markPending slot).pending.contains other =
        ledger.pending.contains other := fun other apart => by
      simp [Ledger.markPending, Ledger.update, Std.ExtTreeSet.contains_insert, Ne.symm apart]
    rw [if_pos mark, valid.book_eq_post ((ledger.update slot change).markPending slot) known
      (fun _ => rfl) kept others changed]
    exact congrArg _ (Account.ext rfl rfl (by simp [toAccount, Ledger.markPending, mark]) rfl)
  · rw [if_neg mark, valid.book_eq_post (ledger.update slot change) known (fun _ => rfl) kept
      (fun _ _ => rfl) changed]
    exact congrArg _ (Account.ext rfl rfl (by simp [toAccount, Ledger.update, mark]) rfl)

theorem book_markPending (valid : ledger.Valid) (known : ledger.slot? id = some slot)
    (found : ledger.entries[slot]? = some entry) :
    (ledger.markPending slot).book =
      ledger.book.post ledger.total id { ledger.toAccount slot entry with pending := true } := by
  have marked : (ledger.markPending slot).pending.contains slot = true := by
    simp [Ledger.markPending]
  have others : ∀ other ≠ slot,
      (ledger.markPending slot).pending.contains other = ledger.pending.contains other := by
    intro other apart
    simp [Ledger.markPending, Std.ExtTreeSet.contains_insert, Ne.symm apart]
  rw [valid.book_eq_post (ledger.markPending slot) known (fun _ => rfl) (fun _ _ => rfl) others
    found]
  exact congrArg _ (Account.ext rfl rfl marked rfl)

end Valid

end Ledger

end Reclaim
