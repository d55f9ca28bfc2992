import Reclaim.Proofs.Ledger.Book

/-! Every counting operation of a ledger is the operation of the same name on its book: it is
refused in the same cases, and what it leaves has the book that the operation on books leaves. -/

set_option autoImplicit false

namespace Reclaim

namespace Ledger

variable {ledger : Ledger} {ref : Ref} {slot : Slot} {entry : Entry} {id : Ident}
  {item owner : Value} {count : Nat}

@[simp] theorem total_track : (ledger.track ref).1.total = ledger.total := by
  unfold track
  split <;> rfl

namespace Valid

theorem book_track (valid : ledger.Valid) (closed : ledger.Closed) :
    (ledger.track ref).1.book = ledger.book.post ledger.total ref.id (ledger.book.get ref) := by
  unfold track
  cases known : ledger.slot? ref.id with
  | some slot =>
    obtain ⟨entry, found, _⟩ := valid.entry_of_slot? known
    have account := book_account known found
    rw [Book.get_eq account]
    exact (Book.post_self account).symm
  | none =>
    have account := book_account_none known
    simp only [Book.get, account, Option.getD_none]
    exact valid.book_insert closed known

theorem toAccount_track (valid : ledger.Valid) (closed : ledger.Closed)
    (found : (ledger.track ref).1.entries[(ledger.track ref).2]? = some entry) :
    (ledger.track ref).1.toAccount (ledger.track ref).2 entry = ledger.book.get ref := by
  have account := book_account (slot?_track ledger ref) found
  rw [valid.book_track closed] at account
  simp only [Book.post, if_true, Option.some.injEq] at account
  exact account.symm

theorem toAccount_insert {slot ownerSlot : Slot} {edges : Nat} (valid : ledger.Valid)
    (known : ledger.slot? id = some ownerSlot) :
    ledger.toAccount slot { entry with owners := entry.owners.insert ownerSlot edges } =
      { ledger.toAccount slot entry with
        owners := fun other => if other = id then edges
          else (ledger.toAccount slot entry).owners other } := by
  -- A slot that holds an owner is met under the identity of that owner only.
  refine Account.ext rfl rfl rfl (funext fun other => ?_)
  simp only [toAccount]
  by_cases here : other = id
  · rw [if_pos here, here, known, Option.bind_some, getElem?_insert_key, if_pos rfl]
    rfl
  · rw [if_neg here]
    cases found : ledger.slot? other with
    | none => rfl
    | some elsewhere =>
      have apart : ownerSlot ≠ elsewhere := fun same => here (valid.slot?_inj (same ▸ found) known)
      rw [Option.bind_some, Option.bind_some, getElem?_insert_key, if_neg apart]

theorem toAccount_withoutEdge {ownerSlot : Slot} (valid : ledger.Valid) (slot : Slot) (entry : Entry)
    (known : ledger.slot? id = some ownerSlot) :
    ledger.toAccount slot (Entry.withoutEdge entry ownerSlot) =
      { ledger.toAccount slot entry with
        owners := fun other =>
          if other = id then (ledger.toAccount slot entry).owners other - 1
          else (ledger.toAccount slot entry).owners other } := by
  have item : (Entry.withoutEdge entry ownerSlot).item = entry.item := by
    unfold Entry.withoutEdge
    split <;> rfl
  have held : (Entry.withoutEdge entry ownerSlot).held = entry.held := by
    unfold Entry.withoutEdge
    split <;> rfl
  refine Account.ext item held rfl (funext fun other => ?_)
  simp only [toAccount]
  by_cases here : other = id
  · rw [if_pos here, here, known, Option.bind_some, Option.bind_some, owners_withoutEdge,
      if_pos rfl]
    split
    next edges recorded => rw [recorded]; rfl
    next few =>
      cases recorded : entry.owners[ownerSlot]? with
      | none => rfl
      | some edges =>
        -- One edge is taken out with its record, and none would have had no record.
        match edges, recorded with
        | 0, _ | 1, _ => rfl
        | edges + 2, recorded => exact absurd recorded (few edges)
  · rw [if_neg here]
    cases found : ledger.slot? other with
    | none => rfl
    | some elsewhere =>
      have apart : ownerSlot ≠ elsewhere := fun same => here (valid.slot?_inj (same ▸ found) known)
      rw [Option.bind_some, Option.bind_some, owners_withoutEdge, if_neg apart]

theorem book_addHolds (valid : ledger.Valid) (closed : ledger.Closed) :
    (ledger.addHolds item count).map book = ledger.book.addHolds item count := by
  have same : ledger.book.total = ledger.total := rfl
  unfold addHolds Book.addHolds
  rw [same]
  cases addCount ledger.total count with
  | error abort => rfl
  | ok total =>
    cases item with
    | scalar atom => rfl
    | shared ref =>
      -- Tracking opens an account without holds, if there is none, and the holds are posted to it.
      have tracked := valid.changes (changes_track ledger ref)
      obtain ⟨entry, found, _⟩ := tracked.entry_of_slot? (slot?_track ledger ref)
      have account := valid.toAccount_track closed found
      have held : heldAt { (ledger.track ref).1 with total } (ledger.track ref).2 =
          (ledger.book.get ref).held := by
        rw [heldAt, found]
        exact congrArg Account.held account
      simp only [bind, Except.bind, Value.ref?_shared, track_withTotal, pure, Except.pure, held]
      cases addCount (ledger.book.get ref).held count with
      | error abort => rfl
      | ok held =>
        simp only [Except.map, Except.ok.injEq]
        let next := Ledger.update { (ledger.track ref).1 with total } (ledger.track ref).2
          fun entry => { entry with held }
        have posted := tracked.book_eq_post { next with
            pending := (ledger.track ref).1.pending.erase (ledger.track ref).2 }
          (slot?_track ledger ref) (fun _ => rfl)
          (fun other apart => by
            simp only [next]
            rw [getElem?_update, if_neg (Ne.symm apart)])
          (fun other apart => by simp [Std.ExtTreeSet.contains_erase, Ne.symm apart])
          (getElem?_update_self _ found)
        rw [valid.book_track closed, Book.post_post] at posted
        have item : entry.item = (ledger.book.get ref).item := congrArg Account.item account
        have owners : _ = (ledger.book.get ref).owners := congrArg Account.owners account
        exact posted.trans (congrArg _ (Account.ext item rfl (by simp [toAccount]) owners))

theorem book_removeHold (valid : ledger.Valid) :
    (ledger.removeHold item).map book = ledger.book.removeHold item := by
  have same : ledger.book.total = ledger.total := rfl
  unfold removeHold Book.removeHold
  rw [same]
  cases item with
  | scalar atom =>
    simp only [Value.ref?_scalar]
    split <;> rfl
  | shared ref =>
    simp only [Value.ref?_shared]
    cases found : ledger.find? ref.id with
    | none => simp [book, found, Except.map]
    | some both =>
      obtain ⟨slot, entry⟩ := both
      obtain ⟨known, present⟩ := find?_eq_some.mp found
      rw [book_account known present]
      by_cases unheld : entry.held = 0
      · simp [unheld, toAccount, Except.map]
      by_cases empty : ledger.total = 0
      · simp [unheld, empty, toAccount, Except.map]
      have held : (ledger.toAccount slot entry).held = entry.held := rfl
      simp only [if_neg unheld, if_neg empty, held, Except.map, Except.ok.injEq]
      exact valid.withTotal.book_update_mark _ _ known present

theorem book_register (valid : ledger.Valid) (closed : ledger.Closed) :
    (ledger.register item).book = ledger.book.register item := by
  unfold register Book.register
  cases item with
  | scalar atom => rfl
  | shared ref =>
    have tracked := valid.changes (changes_track ledger ref)
    obtain ⟨entry, found, _⟩ := tracked.entry_of_slot? (slot?_track ledger ref)
    simp only [Value.ref?_shared]
    rw [tracked.book_markPending (slot?_track ledger ref) found, valid.book_track closed,
      Book.post_post, total_track, valid.toAccount_track closed found]
    rfl

theorem book_trackOwner (valid : ledger.Valid) (closed : ledger.Closed) :
    (ledger.trackOwner ref).1.book = ledger.book.openOwner ref := by
  unfold trackOwner Book.openOwner
  cases known : ledger.slot? ref.id with
  | some slot =>
    obtain ⟨entry, found, _⟩ := valid.entry_of_slot? known
    rw [book_account known found]
  | none =>
    rw [book_account_none known]
    have present : (ledger.insert ref).entries[ledger.nextSlot]? = some { item := ref } := by
      simp [getElem?_insert]
    have index : (ledger.insert ref).slot? ref.id = some ledger.nextSlot := by simp [slot?_insert]
    have inserted := valid.insert known
    have account : (ledger.insert ref).toAccount ledger.nextSlot { item := ref } = { item := ref } := by
      have entered := book_account index present
      rw [valid.book_insert closed known] at entered
      simp only [Book.post, if_true, Option.some.injEq] at entered
      exact entered.symm
    simp only
    rw [inserted.book_markPending index present, valid.book_insert closed known, Book.post_post,
      account]
    rfl

theorem book_link {slot : Slot} {id : Ident} (item : Value) (valid : ledger.Valid)
    (closed : ledger.Closed) (known : ledger.slot? id = some slot) :
    (ledger.link item slot).map book = ledger.book.link item id := by
  -- An owner is known on the book by its identity and in the ledger by its slot.
  have same : ledger.book.total = ledger.total := rfl
  unfold link Book.link
  rw [same]
  cases addCount ledger.total 1 with
  | error abort => rfl
  | ok total =>
    cases item with
    | scalar atom => rfl
    | shared ref =>
      have changes := changes_track ledger ref
      have tracked := valid.changes changes
      obtain ⟨entry, found, _⟩ := tracked.entry_of_slot? (slot?_track ledger ref)
      have account := valid.toAccount_track closed found
      have owner : (ledger.track ref).1.slot? id = some slot := changes.slot?_eq known
      have owners : (fun other => (((ledger.track ref).1.slot? other).bind fun owner =>
          entry.owners[owner]?).getD 0) = (ledger.book.get ref).owners :=
        congrArg Account.owners account
      have edges : edgesAt { (ledger.track ref).1 with total } (ledger.track ref).2 slot =
          (ledger.book.get ref).owners id := by
        rw [← owners, edgesAt, found]
        simp only [owner, Option.bind_some]
      simp only [bind, Except.bind, Value.ref?_shared, track_withTotal, pure, Except.pure, edges]
      cases addCount ((ledger.book.get ref).owners id) 1 with
      | error abort => rfl
      | ok edges =>
        simp only [Except.map, Except.ok.injEq]
        have posted := tracked.book_eq_post
          (Ledger.update { (ledger.track ref).1 with total } (ledger.track ref).2
            fun entry => { entry with owners := entry.owners.insert slot edges })
          (slot?_track ledger ref) (fun _ => rfl)
          (fun other apart => by rw [getElem?_update, if_neg (Ne.symm apart)]) (fun _ _ => rfl)
          (getElem?_update_self _ found)
        rw [valid.book_track closed, Book.post_post] at posted
        exact posted.trans (congrArg _ ((tracked.toAccount_insert owner).trans (by rw [account])))

theorem book_addEdge (valid : ledger.Valid) (closed : ledger.Closed) :
    (ledger.addEdge item owner).map book = ledger.book.addEdge item owner := by
  unfold addEdge Book.addEdge
  cases owner.container? with
  | none => rfl
  | some id =>
    have changes := changes_trackOwner ledger (.container id)
    have linked := book_link item (valid.changes changes) (closed.changes changes)
      (slot?_trackOwner ledger (.container id))
    rw [valid.book_trackOwner closed] at linked
    simp only [Ref.id] at linked ⊢
    rw [← linked]
    cases (ledger.trackOwner (.container id)).1.link item (ledger.trackOwner (.container id)).2 <;> rfl

theorem owners_eq_zero_iff {ownerSlot : Slot} (valid : ledger.Valid)
    (known : ledger.slot? id = some ownerSlot) (found : ledger.entries[slot]? = some entry) :
    (ledger.toAccount slot entry).owners id = 0 ↔ entry.owners[ownerSlot]?.isNone := by
  -- Edges are counted from one, so that an account without edges from an owner has no record of it.
  simp only [toAccount, known, Option.bind_some]
  cases recorded : entry.owners[ownerSlot]? with
  | none => simp
  | some edges =>
    have positive := valid.edges_pos slot entry ownerSlot edges found recorded
    simp only [Option.getD_some, Option.isNone_some, Bool.false_eq_true, iff_false]
    omega

theorem book_removeEdge (valid : ledger.Valid) :
    (ledger.removeEdge item owner).map book = ledger.book.removeEdge item owner := by
  have same : ledger.book.total = ledger.total := rfl
  unfold removeEdge Book.removeEdge
  rw [same]
  cases owner.container? with
  | none => rfl
  | some ownerId =>
    cases item with
    | scalar atom =>
      have tracked : (ledger.book.account ownerId).isNone = (ledger.slot? ownerId).isNone := by
        rw [Bool.eq_iff_iff, Option.isNone_iff_eq_none, Option.isNone_iff_eq_none]
        exact valid.account_eq_none
      simp only [Value.ref?_scalar, tracked]
      split
      · rfl
      · split <;> rfl
    | shared ref =>
      simp only [Value.ref?_shared]
      cases known : ledger.slot? ownerId with
      | none => rw [book_account_none known]; rfl
      | some ownerSlot =>
        obtain ⟨ownerEntry, ownerFound, _⟩ := valid.entry_of_slot? known
        rw [book_account known ownerFound]
        cases found : ledger.find? ref.id with
        | none => simp [book, found, Except.map]
        | some both =>
          obtain ⟨slot, entry⟩ := both
          obtain ⟨index, present⟩ := find?_eq_some.mp found
          rw [book_account index present]
          simp only [valid.owners_eq_zero_iff known present]
          -- The refusals are tried in the same order: no edge, no total, and then the edge goes.
          by_cases missing : entry.owners[ownerSlot]?.isNone
          · rw [if_pos missing, if_pos missing]
            rfl
          by_cases empty : ledger.total = 0
          · rw [if_neg missing, if_neg missing, if_pos empty, if_pos empty]
            rfl
          rw [if_neg missing, if_neg missing, if_neg empty, if_neg empty]
          have lowered : Valid { ledger with total := ledger.total - 1 } := valid.withTotal
          have removed := lowered.book_update_mark (Entry.withoutEdge · ownerSlot) (entry.held = 0)
            index present
          rw [lowered.toAccount_withoutEdge slot entry known] at removed
          exact congrArg Except.ok removed

end Valid

end Ledger

end Reclaim
