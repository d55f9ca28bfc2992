import Reclaim.Proofs.Ledger.Book

/-! What a counting operation does to a book when it succeeds. -/

set_option autoImplicit false

namespace Reclaim

namespace Book

variable {book next : Book} {item owner : Value} {count : Nat} {known : Ref → Prop}

theorem addHolds_ok (added : book.addHolds item count = .ok next) :
    (∃ atom, item = .scalar atom ∧ next = { book with total := book.total + count }) ∨
    ∃ ref, item = .shared ref ∧ next = book.post (book.total + count) ref.id { book.get ref with
      held := (book.get ref).held + count, pending := false } := by
  obtain ⟨total, sum, added⟩ := ok_of_bind added
  obtain ⟨rfl, _⟩ := addCount_eq_ok_iff.mp sum
  cases item with
  | scalar atom => exact .inl ⟨atom, rfl, (Except.ok.inj added).symm⟩
  | shared ref =>
    simp only [Value.ref?_shared] at added
    obtain ⟨held, known, added⟩ := ok_of_bind added
    obtain ⟨rfl, _⟩ := addCount_eq_ok_iff.mp known
    exact .inr ⟨ref, rfl, (Except.ok.inj added).symm⟩

theorem removeHold_ok (removed : book.removeHold item = .ok next) :
    0 < book.total ∧
    ((∃ atom, item = .scalar atom ∧ next = { book with total := book.total - 1 }) ∨
    ∃ ref account, item = .shared ref ∧ book.account ref.id = some account ∧ 0 < account.held ∧
      next = book.post (book.total - 1) ref.id { account with
        held := account.held - 1, pending := account.pending || account.held == 1 }) := by
  unfold removeHold at removed
  cases item with
  | scalar atom =>
    simp only [Value.ref?_scalar] at removed
    split at removed
    · cases removed
    next nonempty =>
      cases removed
      exact ⟨Nat.pos_of_ne_zero nonempty, .inl ⟨atom, rfl, rfl⟩⟩
  | shared ref =>
    simp only [Value.ref?_shared] at removed
    split at removed
    · cases removed
    next account known =>
      split at removed
      · cases removed
      next held =>
        split at removed
        · cases removed
        next nonempty =>
          cases removed
          exact ⟨Nat.pos_of_ne_zero nonempty,
            .inr ⟨ref, account, rfl, known, Nat.pos_of_ne_zero held, rfl⟩⟩

theorem link_ok {id : Ident} (linked : book.link item id = .ok next) :
    (∃ atom, item = .scalar atom ∧ next = { book with total := book.total + 1 }) ∨
    ∃ ref, item = .shared ref ∧ next = book.post (book.total + 1) ref.id { book.get ref with
      owners := fun other => if other = id then (book.get ref).owners id + 1
        else (book.get ref).owners other } := by
  obtain ⟨total, sum, linked⟩ := ok_of_bind linked
  obtain ⟨rfl, _⟩ := addCount_eq_ok_iff.mp sum
  cases item with
  | scalar atom => exact .inl ⟨atom, rfl, (Except.ok.inj linked).symm⟩
  | shared ref =>
    simp only [Value.ref?_shared] at linked
    obtain ⟨edges, known, linked⟩ := ok_of_bind linked
    obtain ⟨rfl, _⟩ := addCount_eq_ok_iff.mp known
    exact .inr ⟨ref, rfl, (Except.ok.inj linked).symm⟩

theorem addEdge_ok (added : book.addEdge item owner = .ok next) :
    ∃ id, owner = .shared (.container id) ∧
      (book.openOwner (.container id)).link item id = .ok next := by
  unfold addEdge at added
  match owner with
  | .scalar _ | .shared (.buffer _) => cases added
  | .shared (.container id) =>
    simp only [Value.container?] at added
    exact ⟨id, rfl, ok_of_mapError added⟩

theorem removeEdge_ok (removed : book.removeEdge item owner = .ok next) :
    0 < book.total ∧ ∃ id, owner = .shared (.container id) ∧ (book.account id).isSome ∧
      ((∃ atom, item = .scalar atom ∧ next = { book with total := book.total - 1 }) ∨
      ∃ ref account, item = .shared ref ∧ book.account ref.id = some account ∧
        0 < account.owners id ∧
        next = book.post (book.total - 1) ref.id { account with
          pending := account.pending || account.held == 0
          owners := fun other =>
            if other = id then account.owners other - 1 else account.owners other }) := by
  unfold removeEdge at removed
  match owner with
  | .scalar _ | .shared (.buffer _) => cases removed
  | .shared (.container id) =>
    simp only [Value.container?] at removed
    cases item with
    | scalar atom =>
      simp only [Value.ref?_scalar] at removed
      split at removed
      · cases removed
      next tracked =>
        split at removed
        · cases removed
        next nonempty =>
          cases removed
          rw [Option.isNone_iff_eq_none, ← ne_eq, Option.ne_none_iff_isSome] at tracked
          exact ⟨Nat.pos_of_ne_zero nonempty, id, rfl, tracked, .inl ⟨atom, rfl, rfl⟩⟩
    | shared ref =>
      simp only [Value.ref?_shared] at removed
      split at removed
      next ownerAccount account tracked known =>
        split at removed
        · cases removed
        next recorded =>
          split at removed
          · cases removed
          next nonempty =>
            cases removed
            exact ⟨Nat.pos_of_ne_zero nonempty, id, rfl, by rw [tracked]; rfl,
              .inr ⟨ref, account, rfl, known, Nat.pos_of_ne_zero recorded, rfl⟩⟩
      next => cases removed

def edges (book : Book) (item owner : Ident) : Nat :=
  ((book.account item).map (·.owners owner)).getD 0

def Names (book : Book) (known : Ref → Prop) : Prop :=
  ∀ id account, book.account id = some account → known account.item

section

variable {total : Nat} {id : Ident} {account : Account} {ref : Ref}

theorem edges_post {item owner : Ident} : (book.post total id account).edges item owner =
    if item = id then account.owners owner else book.edges item owner := by
  unfold edges post
  simp only
  split <;> rfl

theorem owners_get {owner : Ident} : (book.get ref).owners owner = book.edges ref.id owner := by
  unfold get edges
  cases book.account ref.id <;> rfl

theorem owners_eq {owner : Ident} (present : book.account id = some account) :
    account.owners owner = book.edges id owner := by
  simp [edges, present]

theorem edges_post_same {item owner : Ident}
    (same : ∀ owner, account.owners owner = book.edges id owner) :
    (book.post total id account).edges item owner = book.edges item owner := by
  rw [edges_post, same]
  split
  next here => rw [here]
  next => rfl

theorem Names.post (names : book.Names known) (named : known account.item) :
    (book.post total id account).Names known := by
  intro other entered found
  simp only [Book.post] at found
  split at found
  · cases found
    exact named
  · exact names other entered found

theorem Names.get (names : book.Names known) (named : known ref) : known (book.get ref).item := by
  unfold Book.get
  cases found : book.account ref.id with
  | none => exact named
  | some account => exact names ref.id account found

theorem Names.openOwner (names : book.Names known) (named : known ref) :
    (book.openOwner ref).Names known := by
  unfold Book.openOwner
  split
  · exact names
  · exact names.post named

@[simp] theorem edges_openOwner {item owner : Ident} :
    (book.openOwner ref).edges item owner = book.edges item owner := by
  unfold openOwner
  split
  next => rfl
  next unknown => exact edges_post_same fun _ => by simp [edges, unknown]

end

theorem Names.addHolds (names : book.Names known) (added : book.addHolds item count = .ok next)
    (named : ∀ ref, item = .shared ref → known ref) : next.Names known := by
  obtain ⟨_, _, rfl⟩ | ⟨ref, same, rfl⟩ := addHolds_ok added
  · exact names
  · exact names.post (names.get (named ref same))

theorem Names.removeHold (names : book.Names known) (removed : book.removeHold item = .ok next) :
    next.Names known := by
  obtain ⟨_, ⟨_, _, rfl⟩ | ⟨ref, account, _, found, _, rfl⟩⟩ := removeHold_ok removed
  · exact names
  · exact names.post (names ref.id account found)

theorem Names.register (names : book.Names known) (named : ∀ ref, item = .shared ref → known ref) :
    (book.register item).Names known := by
  unfold Book.register
  cases item with
  | scalar atom => exact names
  | shared ref => exact names.post (names.get (named ref rfl))

theorem Names.addEdge (names : book.Names known) (added : book.addEdge item owner = .ok next)
    (named : ∀ ref, item = .shared ref ∨ owner = .shared ref → known ref) : next.Names known := by
  obtain ⟨id, same, linked⟩ := addEdge_ok added
  have opened := names.openOwner (named _ (.inr same))
  obtain ⟨_, _, rfl⟩ | ⟨ref, same, rfl⟩ := link_ok linked
  · exact opened
  · exact opened.post (opened.get (named ref (.inl same)))

theorem Names.removeEdge (names : book.Names known) (removed : book.removeEdge item owner = .ok next) :
    next.Names known := by
  obtain ⟨_, id, _, _, ⟨_, _, rfl⟩ | ⟨ref, account, _, found, _, rfl⟩⟩ := removeEdge_ok removed
  · exact names
  · exact names.post (names ref.id account found)

theorem edges_addHolds {child owner : Ident} (added : book.addHolds item count = .ok next) :
    next.edges child owner = book.edges child owner := by
  obtain ⟨_, _, rfl⟩ | ⟨ref, _, rfl⟩ := addHolds_ok added
  · rfl
  · exact edges_post_same fun _ => owners_get

theorem edges_removeHold {child owner : Ident} (removed : book.removeHold item = .ok next) :
    next.edges child owner = book.edges child owner := by
  obtain ⟨_, ⟨_, _, rfl⟩ | ⟨ref, account, _, found, _, rfl⟩⟩ := removeHold_ok removed
  · rfl
  · exact edges_post_same fun other => show account.owners other = _ from owners_eq found

theorem edges_register {child owner : Ident} :
    (book.register item).edges child owner = book.edges child owner := by
  unfold register
  cases item with
  | scalar atom => rfl
  | shared ref => exact edges_post_same fun _ => owners_get

theorem id?_shared (ref : Ref) : (Value.shared ref).id? = some ref.id := rfl

theorem id_container (id : Ident) : (Ref.container id).id = id := rfl

theorem edges_link {id : Ident} (linked : book.link item id = .ok next) (child owner : Ident) :
    next.edges child owner = book.edges child owner +
      if item.id? = some child ∧ owner = id then 1 else 0 := by
  obtain ⟨atom, rfl, rfl⟩ | ⟨ref, rfl, rfl⟩ := link_ok linked
  · simp [Value.id?, edges]
  · rw [edges_post]
    simp only [owners_get, id?_shared, Option.some.injEq]
    by_cases here : child = ref.id
    · by_cases there : owner = id <;> simp [here, there]
    · simp [here, Ne.symm here]

theorem edges_addEdge (added : book.addEdge item owner = .ok next) (child ownerId : Ident) :
    next.edges child ownerId = book.edges child ownerId +
      if item.id? = some child ∧ owner.id? = some ownerId then 1 else 0 := by
  obtain ⟨id, rfl, linked⟩ := addEdge_ok added
  rw [edges_link linked, edges_openOwner]
  simp only [id?_shared, id_container, Option.some.injEq, @eq_comm _ ownerId]

theorem edges_removeEdge (removed : book.removeEdge item owner = .ok next) (child ownerId : Ident) :
    book.edges child ownerId = next.edges child ownerId +
      if item.id? = some child ∧ owner.id? = some ownerId then 1 else 0 := by
  obtain ⟨_, id, rfl, _, ⟨atom, rfl, rfl⟩ | ⟨ref, account, rfl, found, recorded, rfl⟩⟩ :=
    removeEdge_ok removed
  · simp [Value.id?, edges]
  · rw [edges_post]
    simp only [id?_shared, id_container, Option.some.injEq]
    rw [owners_eq found] at recorded
    by_cases here : child = ref.id
    · by_cases there : ownerId = id
      · simp only [here, there, if_true, and_self, owners_eq found]
        omega
      · simp [here, there, Ne.symm there, owners_eq found]
    · simp [here, Ne.symm here]

end Book

end Reclaim
