import Mathlib.Algebra.BigOperators.Group.Finset.Piecewise
import Mathlib.Algebra.BigOperators.Group.List.Basic
import Mathlib.Algebra.GroupWithZero.Nat
import Mathlib.Algebra.Order.BigOperators.Group.Finset
import Mathlib.Algebra.Ring.Int.Defs
import Reclaim.Proofs.Collect.Liveness
import Reclaim.Proofs.Ledger.Agreement
import Reclaim.Proofs.Ledger.Holds

/-! What the total counts. Every reference is a hold on a shared value, a place in a container or a
hold on a scalar. Holds on scalars are recorded nowhere but in the total, so they are what is left of it
after the other two have been taken away and everything owed has been paid. -/

set_option autoImplicit false

namespace Reclaim

section Sums

variable {created : Nat}

theorem sum_map_eq_sum_range {ids : List Ident} {amount : Ident → Nat} (nodup : ids.Nodup)
    (below : ∀ id ∈ ids, id < created) (rest : ∀ id, id ∉ ids → amount id = 0) :
    (ids.map amount).sum = ∑ id ∈ Finset.range created, amount id := by
  rw [← List.sum_toFinset amount nodup]
  apply Finset.sum_subset
  · intro id member
    exact Finset.mem_range.mpr (below id (List.mem_toFinset.mp member))
  · intro id _ outside
    exact rest id fun member => outside (List.mem_toFinset.mpr member)

end Sums

def Due.references : Due → Int
  | .gain _ _ => 1
  | .loss _ _ => -1

namespace Due

variable {owed : List Due} {due : Due} {children : List Value} {container : Value}

/-- What the total is short of before everything owed is paid. -/
def shortfall (owed : List Due) : Int := (owed.map references).sum

theorem shortfall_cons : shortfall (due :: owed) = due.references + shortfall owed := by
  simp [shortfall]

theorem shortfall_append {others : List Due} :
    shortfall (owed ++ others) = shortfall owed + shortfall others := by
  simp [shortfall]

theorem shortfall_gains : shortfall (children.map (.gain · container)) = children.length := by
  induction children with
  | nil => rfl
  | cons child rest ih =>
    rw [List.map_cons, shortfall_cons, ih, List.length_cons, references]
    omega

theorem shortfall_losses : shortfall (children.map (.loss · container)) = -children.length := by
  induction children with
  | nil => rfl
  | cons child rest ih =>
    rw [List.map_cons, shortfall_cons, ih, List.length_cons, references]
    omega

end Due

namespace Book

variable {book next : Book} {heap : Heap} {created : Nat} {owed : List Due} {item owner : Value}
  {count : Nat}

def load (book : Book) (heap : Heap) (id : Ident) : Nat :=
  book.heldBy id + (heap.container id).length

def loads (book : Book) (heap : Heap) (created : Nat) : Nat :=
  ∑ id ∈ Finset.range created, book.load heap id

theorem load_le_loads {id : Ident} (below : id < created) :
    book.load heap id ≤ book.loads heap created :=
  Finset.single_le_sum_of_canonicallyOrdered (Finset.mem_range.mpr below)

def scalarHolds (book : Book) (heap : Heap) (created : Nat) (owed : List Due) : Int :=
  book.total + Due.shortfall owed - book.loads heap created

theorem sum_id? (below : ∀ id, item.id? = some id → id < created) :
    (∑ id ∈ Finset.range created, if item.id? = some id then count else 0) =
      if item.isShared then count else 0 := by
  cases item with
  | scalar atom => simp [Value.id?, Value.isShared]
  | shared ref =>
    have present := below ref.id rfl
    simp [id?_shared, Value.isShared, Finset.sum_ite_eq, present]

theorem loads_congr (same : ∀ id, next.heldBy id = book.heldBy id) :
    next.loads heap created = book.loads heap created := by
  unfold loads load
  simp only [same]

theorem scalarHolds_addHolds (added : book.addHolds item count = .ok next)
    (below : ∀ id, item.id? = some id → id < created) :
    next.scalarHolds heap created owed =
      book.scalarHolds heap created owed + if item.isShared then 0 else count := by
  have held : next.loads heap created =
      book.loads heap created + if item.isShared then count else 0 := by
    simp only [loads, load, heldBy_addHolds added]
    rw [← sum_id? below, ← Finset.sum_add_distrib]
    exact Finset.sum_congr rfl fun id _ => Nat.add_right_comm _ _ _
  have total := total_addHolds added
  unfold scalarHolds
  cases shared : item.isShared <;> simp only [shared, if_true, Bool.false_eq_true, if_false] at held ⊢ <;>
    omega

theorem scalarHolds_removeHold (removed : book.removeHold item = .ok next)
    (below : ∀ id, item.id? = some id → id < created) :
    next.scalarHolds heap created owed =
      book.scalarHolds heap created owed - if item.isShared then 0 else 1 := by
  have held : book.loads heap created =
      next.loads heap created + if item.isShared then 1 else 0 := by
    simp only [loads, load, heldBy_removeHold removed]
    rw [← sum_id? below, ← Finset.sum_add_distrib]
    exact Finset.sum_congr rfl fun id _ => Nat.add_right_comm _ _ _
  have total := total_removeHold removed
  unfold scalarHolds
  cases shared : item.isShared <;> simp only [shared, if_true, Bool.false_eq_true, if_false] at held ⊢ <;>
    omega

theorem scalarHolds_register : (book.register item).scalarHolds heap created owed =
    book.scalarHolds heap created owed := by
  unfold scalarHolds
  rw [total_register, loads_congr fun _ => heldBy_register]

theorem sum_single {id : Ident} (below : id < created) :
    (∑ other ∈ Finset.range created, if id = other then count else 0) = count := by
  simp [Finset.sum_ite_eq, below]

theorem scalarHolds_trade {id : Ident} {container : Container} {gains losses : List Value}
    (below : id < created) (trades : (heap.container id).Trades container gains losses) :
    book.scalarHolds (heap.setContainer id container) created
      (gains.map (.gain · (.shared (.container id))) ++
        losses.map (.loss · (.shared (.container id))) ++ owed) =
      book.scalarHolds heap created owed := by
  have lengths := trades.length_eq
  simp only [List.length_append, Container.length_children] at lengths
  have loads : book.loads (heap.setContainer id container) created + (heap.container id).length =
      book.loads heap created + container.length := by
    unfold loads load
    rw [← @sum_single _ (heap.container id).length id below, ← @sum_single _ container.length id below,
      ← Finset.sum_add_distrib, ← Finset.sum_add_distrib]
    apply Finset.sum_congr rfl
    intro other _
    rw [Heap.container_setContainer]
    split
    next here => rw [here, Nat.add_right_comm]
    next => rfl
  unfold scalarHolds
  rw [Due.shortfall_append, Due.shortfall_append, Due.shortfall_gains, Due.shortfall_losses]
  omega

theorem scalarHolds_make {grown : Heap} (unheld : book.heldBy created = 0)
    (empty : (grown.container created).length = 0)
    (same : ∀ id < created, (grown.container id).length = (heap.container id).length) :
    book.scalarHolds grown (created + 1) owed = book.scalarHolds heap created owed := by
  have loads : book.loads grown (created + 1) = book.loads heap created := by
    unfold loads load
    rw [Finset.sum_range_succ, unheld, empty, Nat.add_zero]
    apply Finset.sum_congr rfl
    intro id member
    rw [same id (Finset.mem_range.mp member)]
  unfold scalarHolds
  rw [loads]

end Book

namespace Ledger

variable {ledger : Ledger} {heap : Heap} {created : Nat} {refs : List Ref} {owed : List Due}

namespace Sound

theorem below_of_holds {item : Value} (sound : ledger.Sound heap created owed)
    (held : heap.holds item) (id : Ident) (named : item.id? = some id) : id < created := by
  cases item with
  | scalar atom => cases named
  | shared ref =>
    cases named
    exact sound.formed.lt ref held

theorem length_container {ref : Ref} (sound : ledger.Sound heap created owed)
    (held : heap.holds (.shared ref)) : (heap.container ref.id).length = heap.childCount ref := by
  cases ref with
  | container id => rfl
  | buffer id =>
    have empty : (heap.childCount (.buffer id)) = 0 := rfl
    rw [empty, ← Container.length_children, List.length_eq_zero_iff, List.eq_nil_iff_forall_not_mem]
    intro child member
    have other := @Heap.holds_of_mem_children heap (.container id) child member
    cases sound.formed.inj _ _ other held rfl

theorem heldBy_eq (sound : ledger.Sound heap created owed) (ref : Ref) :
    ledger.book.heldBy ref.id = ledger.held (.shared ref) :=
  (sound.valid.held_eq_book ref).symm

theorem nodup_ids (sound : ledger.Sound heap created owed) (nodup : refs.Nodup)
    (present : ∀ ref ∈ refs, heap.holds (.shared ref)) : (refs.map Ref.id).Nodup :=
  nodup.map_on fun first member second other same =>
    sound.formed.inj first second (present first member) (present second other) same

/-- Where values without an account have no contents, the tracked values have all of them. -/
theorem loads_eq (sound : ledger.Sound heap created owed)
    (childless : ∀ id, ledger.book.account id = none → (heap.container id).length = 0) :
    ledger.book.loads heap created =
      (ledger.tracked.map fun ref => ledger.held (.shared ref) + heap.childCount ref).sum := by
  have nodup := sound.nodup_ids sound.valid.nodup_tracked sound.present
  unfold Book.loads
  rw [← sum_map_eq_sum_range nodup, List.map_map]
  · congr 1
    apply List.map_congr_left
    intro ref tracked
    simp only [Function.comp, Book.load, sound.heldBy_eq, sound.length_container (sound.present ref tracked)]
  · intro id member
    obtain ⟨ref, tracked, rfl⟩ := List.mem_map.mp member
    exact sound.formed.lt ref (sound.present ref tracked)
  · intro id outside
    have unknown : ledger.book.account id = none := by
      cases known : ledger.book.account id with
      | none => rfl
      | some account =>
        obtain ⟨same, tracked⟩ := sound.valid.tracked_of_account known
        exact absurd (List.mem_map.mpr ⟨account.item, tracked, same⟩) outside
    simp [Book.load, Book.heldBy, unknown, childless id unknown]

theorem length_container_releaseAll (sound : ledger.Sound heap created owed)
    (present : ∀ ref ∈ refs, heap.holds (.shared ref)) (id : Ident) :
    ((heap.releaseAll refs).container id).length =
      if id ∈ refs.map Ref.id then 0 else (heap.container id).length := by
  have after := congrArg List.length (@Heap.children_releaseAll heap (.container id) refs)
  by_cases inside : .container id ∈ refs
  · rw [if_pos inside, Heap.length_children] at after
    have named : id ∈ refs.map Ref.id := List.mem_map.mpr ⟨_, inside, rfl⟩
    rw [if_pos named]
    exact after
  · rw [if_neg inside, Heap.length_children, Heap.length_children] at after
    split
    next named =>
      -- What has this identity and is released is a buffer.
      obtain ⟨ref, member, rfl⟩ := List.mem_map.mp named
      have count := sound.length_container (present ref member)
      cases ref with
      | container other => exact absurd member inside
      | buffer other => exact after.trans count
    next => exact after

end Sound

/-- Values without holds take the places of their contents with them. -/
theorem Sound.loads_withdraw (sound : ledger.Sound heap created owed) (nodup : refs.Nodup)
    (present : ∀ ref ∈ refs, heap.holds (.shared ref))
    (unheld : ∀ ref ∈ refs, ledger.book.heldBy ref.id = 0) (amount : Nat) :
    (ledger.book.withdraw refs amount).loads (heap.releaseAll refs) created + heap.childTotal refs =
      ledger.book.loads heap created := by
  have places : heap.childTotal refs = ∑ id ∈ Finset.range created,
      if id ∈ refs.map Ref.id then (heap.container id).length else 0 := by
    rw [← sum_map_eq_sum_range (sound.nodup_ids nodup present), Heap.childTotal_eq_sum, List.map_map]
    · congr 1
      apply List.map_congr_left
      intro ref member
      rw [Function.comp, if_pos (List.mem_map_of_mem member), sound.length_container (present ref member)]
    · intro id named
      obtain ⟨ref, member, rfl⟩ := List.mem_map.mp named
      exact sound.formed.lt ref (present ref member)
    · exact fun id outside => if_neg outside
  unfold Book.loads Book.load
  rw [places, ← Finset.sum_add_distrib]
  apply Finset.sum_congr rfl
  intro id _
  rw [Book.heldBy_withdraw, sound.length_container_releaseAll present]
  by_cases inside : id ∈ refs.map Ref.id
  · obtain ⟨ref, member, rfl⟩ := List.mem_map.mp inside
    simp only [if_pos inside, unheld ref member]
  · simp only [if_neg inside, Nat.add_zero]

theorem Collects.scalarHolds_eq {removal : Removal} (collects : ledger.Collects heap created refs removal)
    (sound : ledger.Sound heap created []) :
    removal.ledger.book.scalarHolds removal.heap created [] =
      ledger.book.scalarHolds heap created [] := by
  have present : ∀ ref ∈ refs, heap.holds (.shared ref) := fun ref member =>
    sound.present ref (collects.dead ref member).1
  have unheld : ∀ ref ∈ refs, ledger.book.heldBy ref.id = 0 := by
    intro ref member
    obtain ⟨tracked, dead⟩ := collects.dead ref member
    rw [sound.heldBy_eq]
    apply Nat.eq_zero_of_not_pos
    exact fun held => dead ⟨ref, tracked, held, .refl⟩
  have loads := sound.loads_withdraw collects.nodup present unheld (heap.childTotal refs)
  rw [← collects.removes.book, ← collects.removes.released] at loads
  have covered := collects.covered
  have total := collects.total_eq
  have before : ledger.book.total = ledger.total := rfl
  have after : removal.ledger.book.total = removal.ledger.total := rfl
  unfold Book.scalarHolds
  omega

end Ledger

end Reclaim
