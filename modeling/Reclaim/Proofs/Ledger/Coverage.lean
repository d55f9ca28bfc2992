import Mathlib.Logic.Relation
import Reclaim.Proofs.Ledger.Effects

/-! What the pending slots are for. As long as every addition of holds adds at least one, each value
with an account is led to along recorded edges from one that is held or pending, so nothing dies
without a pending value that the next settle starts from. -/

set_option autoImplicit false

namespace Reclaim

namespace Book

variable {book next : Book} {item owner : Value} {amount : Nat} {id : Ident}

def Owns (book : Book) (owner item : Ident) : Prop := 0 < book.edges item owner

def Rooted (book : Book) (id : Ident) : Prop :=
  ∃ account, book.account id = some account ∧ (0 < account.held ∨ account.pending)

/-- A held or pending value leads to this one along edges. -/
def Reached (book : Book) (id : Ident) : Prop :=
  ∃ root, book.Rooted root ∧ Relation.ReflTransGen book.Owns root id

def Covered (book : Book) : Prop := ∀ id, (book.account id).isSome → book.Reached id

theorem Rooted.reached (rooted : book.Rooted id) : book.Reached id := ⟨id, rooted, .refl⟩

theorem Rooted.post {other : Ident} {total : Nat} {account : Account} (rooted : book.Rooted other)
    (same : ∀ before, book.account id = some before → 0 < before.held ∨ before.pending →
      0 < account.held ∨ account.pending) : (book.post total id account).Rooted other := by
  obtain ⟨before, found, reason⟩ := rooted
  by_cases here : other = id
  · exact ⟨account, account_post.trans (if_pos here), same before (here ▸ found) reason⟩
  · exact ⟨before, (account_post.trans (if_neg here)).trans found, reason⟩

theorem Reached.tail {child : Ident} (reached : book.Reached id) (owns : book.Owns id child) :
    book.Reached child := by
  obtain ⟨root, rooted, path⟩ := reached
  exact ⟨root, rooted, path.tail owns⟩

/-- An edge may go if its target becomes a root: what was reached over it is reached from there. -/
theorem Reached.step (reached : book.Reached id) (roots : ∀ id, book.Rooted id → next.Rooted id)
    (edges : ∀ owner item, book.Owns owner item → next.Owns owner item ∨ next.Rooted item) :
    next.Reached id := by
  obtain ⟨root, rooted, path⟩ := reached
  induction path with
  | refl => exact (roots root rooted).reached
  | tail _ owns ih =>
    rcases edges _ _ owns with kept | rooted
    · exact ih.tail kept
    · exact rooted.reached

theorem Covered.step (covered : book.Covered) (roots : ∀ id, book.Rooted id → next.Rooted id)
    (edges : ∀ owner item, book.Owns owner item → next.Owns owner item ∨ next.Rooted item)
    (fresh : ∀ id, (next.account id).isSome → (book.account id).isSome ∨ next.Reached id) :
    next.Covered := by
  intro id tracked
  rcases fresh id tracked with old | reached
  · exact (covered id old).step roots edges
  · exact reached

section

variable {total : Nat} {account : Account}

/-- An account is changed that stays or becomes a root, whatever happens to its edges. -/
theorem Covered.post_rooted (covered : book.Covered)
    (rooted : 0 < account.held ∨ account.pending = true) :
    (book.post total id account).Covered := by
  have root : (book.post total id account).Rooted id :=
    ⟨account, by simp [post], rooted⟩
  refine covered.step (fun other before => before.post fun _ _ _ => rooted)
    (fun owner item owns => ?_) fun other tracked => ?_
  · by_cases here : item = id
    · exact .inr (here ▸ root)
    · refine .inl ?_
      unfold Owns
      rwa [edges_post, if_neg here]
  · by_cases here : other = id
    · exact .inr (here ▸ root.reached)
    · simp only [post, if_neg here] at tracked
      exact .inl tracked

end

theorem Covered.addHolds (covered : book.Covered) (positive : 0 < amount)
    (added : book.addHolds item amount = .ok next) : next.Covered := by
  obtain ⟨_, _, rfl⟩ | ⟨ref, _, rfl⟩ := addHolds_ok added
  · exact covered
  · exact covered.post_rooted (.inl (Nat.lt_of_lt_of_le positive (Nat.le_add_left _ _)))

theorem Covered.register (covered : book.Covered) : (book.register item).Covered := by
  unfold Book.register
  cases item with
  | scalar atom => exact covered
  | shared ref => exact covered.post_rooted (.inr rfl)

theorem Covered.openOwner {ref : Ref} (covered : book.Covered) : (book.openOwner ref).Covered := by
  unfold Book.openOwner
  split
  next => exact covered
  next => exact covered.post_rooted (.inr rfl)

/-- The last hold on a value leaves it pending. -/
theorem Covered.removeHold (covered : book.Covered) (removed : book.removeHold item = .ok next) :
    next.Covered := by
  obtain ⟨_, ⟨_, _, rfl⟩ | ⟨ref, account, _, _, held, rfl⟩⟩ := removeHold_ok removed
  · exact covered
  · refine covered.post_rooted ?_
    by_cases last : account.held = 1
    · exact .inr (by simp [last])
    · exact .inl (by simp only; omega)

theorem isSome_openOwner (ref : Ref) : ((book.openOwner ref).account ref.id).isSome := by
  unfold openOwner
  split
  next known => rw [known]; rfl
  next => simp [post]

theorem Covered.link (covered : book.Covered) (known : (book.account id).isSome)
    (linked : book.link item id = .ok next) : next.Covered := by
  have edges : ∀ owner child, book.Owns owner child → next.Owns owner child := by
    intro owner child owns
    unfold Owns
    rw [edges_link linked]
    exact Nat.lt_of_lt_of_le owns (Nat.le_add_right _ _)
  have kept : ∀ owner child, book.Owns owner child → next.Owns owner child ∨ next.Rooted child :=
    fun owner child owns => .inl (edges owner child owns)
  obtain ⟨_, _, rfl⟩ | ⟨ref, rfl, posted⟩ := link_ok linked
  · exact covered
  have new : next.Owns id ref.id := by
    unfold Owns
    rw [edges_link linked, if_pos ⟨rfl, rfl⟩]
    exact Nat.succ_pos _
  have roots : ∀ other, book.Rooted other → next.Rooted other := by
    intro other rooted
    rw [posted]
    refine rooted.post fun before found reason => ?_
    rw [get_eq found]
    exact reason
  refine covered.step roots kept fun other tracked => ?_
  by_cases here : other = ref.id
  · have owner := (covered id known).step roots kept
    exact .inr (here ▸ owner.tail new)
  · rw [posted, account_post, if_neg here] at tracked
    exact .inl tracked

theorem Covered.addEdge (covered : book.Covered) (added : book.addEdge item owner = .ok next) :
    next.Covered := by
  obtain ⟨id, _, linked⟩ := addEdge_ok added
  exact covered.openOwner.link (isSome_openOwner (.container id)) linked

theorem Covered.removeEdge (covered : book.Covered) (removed : book.removeEdge item owner = .ok next) :
    next.Covered := by
  obtain ⟨_, id, _, _, ⟨_, _, rfl⟩ | ⟨ref, account, _, _, _, rfl⟩⟩ := removeEdge_ok removed
  · exact covered
  · refine covered.post_rooted ?_
    by_cases unheld : account.held = 0
    · exact .inr (by simp [unheld])
    · exact .inl (Nat.pos_of_ne_zero unheld)

end Book

end Reclaim
