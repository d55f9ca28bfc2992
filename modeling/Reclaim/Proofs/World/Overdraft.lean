import Reclaim.Proofs.World.Payments

/-! Payments that fail. What is owed for a trade of a container is recorded, so a payment for it is not
refused for want of an edge or an owner. It fails where a count does not fit, or where the total is used up,
and then scalars have been let go more often than they were held. -/

set_option autoImplicit false

namespace Reclaim

/-- A count does not fit, or more scalars have been let go than were held and the total is used up. -/
def CallError.Overdraws (scalars : Int) (error : CallError) : Prop :=
  (∃ abort, error = .failed (.aborted abort)) ∨ error = .failed (.refused .totalUnderflow) ∧ scalars < 0

namespace Book

variable {book : Book} {item owner : Value} {id : Ident} {failure : Failure} {error : LedgerError}

theorem removeHold_error (failed : book.removeHold item = .error error) :
    (error = .totalUnderflow ∧ book.total = 0) ∨
      ∃ ref, item = .shared ref ∧ error = .holdUnderflow ref.id ∧ book.heldBy ref.id = 0 := by
  unfold removeHold at failed
  cases item with
  | scalar atom =>
    simp only [Value.ref?_scalar] at failed
    split at failed <;> cases failed
    exact .inl ⟨rfl, ‹_›⟩
  | shared ref =>
    simp only [Value.ref?_shared] at failed
    split at failed
    next unknown =>
      cases failed
      exact .inr ⟨ref, rfl, rfl, by simp [heldBy, unknown]⟩
    next account known =>
      split at failed
      next unheld =>
        cases failed
        exact .inr ⟨ref, rfl, rfl, (held_eq known).symm.trans unheld⟩
      next =>
        split at failed <;> cases failed
        exact .inl ⟨rfl, ‹_›⟩

theorem addEdge_error (failed : book.addEdge item (.shared (.container id)) = .error failure) :
    ∃ abort, failure = .aborted abort := by
  unfold addEdge at failed
  simp only [Value.container?] at failed
  cases linked : (book.openOwner (.container id)).link item id with
  | ok next =>
    rw [linked] at failed
    cases failed
  | error abort =>
    rw [linked] at failed
    exact ⟨abort, (Except.error.inj failed).symm⟩

theorem removeEdge_error (knows : book.Knows item) (knowsOwner : book.Knows (.shared (.container id)))
    (edges : ∀ child, item.id? = some child → 0 < book.edges child id)
    (failed : book.removeEdge item (.shared (.container id)) = .error error) :
    error = .totalUnderflow ∧ book.total = 0 := by
  have empty : book.total = 0 := by
    refine Nat.eq_zero_of_not_pos fun counted => ?_
    obtain ⟨next, removed⟩ := exists_removeEdge knows knowsOwner counted edges
    cases failed.symm.trans removed
  refine ⟨?_, empty⟩
  obtain ⟨owner, ownerKnown⟩ := knowsOwner.exists_account
  have ownerKnown : book.account id = some owner := ownerKnown
  unfold removeEdge at failed
  cases item with
  | scalar atom =>
    simp only [Value.container?, Value.ref?_scalar, ownerKnown, Option.isNone_some, Bool.false_eq_true,
      empty, if_false, if_true] at failed
    exact (Except.error.inj failed).symm
  | shared ref =>
    obtain ⟨account, known⟩ := knows.exists_account
    have recorded := edges ref.id rfl
    rw [← owners_eq known] at recorded
    simp only [Value.container?, Value.ref?_shared, ownerKnown, known, Nat.ne_of_gt recorded, empty,
      if_false, if_true] at failed
    exact (Except.error.inj failed).symm

end Book

namespace World

variable {world after : World} {due : Due} {rest : List Due} {error : CallError} {id : Ident} {item : Value}
  {gains losses : List Value}

theorem pay_error (sound : world.Sound (due :: rest)) (failed : world.perform due.call = (after, .error error)) :
    ∃ failure, error = .failed failure ∧ world.counter.ledger.book.hear due.call = .error failure := by
  have held : ∀ value ∈ due.call.values, world.heap.holds value := by
    have present := sound.ledger.owed_present due List.mem_cons_self
    cases due <;> exact present
  have answered : ∀ result : Except Failure Counter, world.count result = (after, .error error) →
      ∃ failure, error = .failed failure ∧ result.map (·.ledger.book) = .error failure := by
    intro result counted
    cases result with
    | ok counter => cases counted
    | error failure =>
      cases counted
      exact ⟨failure, rfl, rfl⟩
  unfold perform at failed
  rw [if_pos (List.all_eq_true.mpr held)] at failed
  cases due with
  | gain item owner =>
    have heard := answered _ failed
    rwa [Counter.Sound.book_addEdge sound] at heard
  | loss item owner =>
    have heard := answered _ failed
    rwa [Counter.Sound.book_removeEdge sound] at heard

theorem loss_error (sound : world.Sound (Due.trade id [] (item :: losses)))
    (knows : world.counter.ledger.book.Knows item)
    (knowsOwner : world.counter.ledger.book.Knows (.shared (.container id)))
    (failed : world.perform (Due.loss item (.shared (.container id))).call = (after, .error error)) :
    error.Overdraws (world.counter.ledger.book.scalarHolds world.heap world.created
      (Due.trade id [] (item :: losses))) := by
  obtain ⟨failure, rfl, heard⟩ := pay_error sound failed
  have heard : (world.counter.ledger.book.removeEdge item (.shared (.container id))).mapError .refused =
      .error failure := heard
  cases removed : world.counter.ledger.book.removeEdge item (.shared (.container id)) with
  | ok next =>
    rw [removed] at heard
    cases heard
  | error reason =>
    rw [removed] at heard
    obtain ⟨rfl, empty⟩ := Book.removeEdge_error knows knowsOwner (edges_pos_of_loss sound) removed
    refine .inr ⟨congrArg CallError.failed (Except.error.inj heard).symm, ?_⟩
    rw [Book.scalarHolds, Due.shortfall_trade, empty, List.length_cons, List.length_nil]
    omega

/-- What is not paid in full fails at the first payment, or after it has been made. -/
theorem performAll_error {scalars : Int} (sound : world.Sound (due :: rest))
    (knows : ∀ other ∈ due :: rest, ∀ value ∈ other.values, world.counter.ledger.book.Knows value)
    (failed : world.performAll ((due :: rest).map Due.call) = .error error)
    (first : ∀ after, world.perform due.call = (after, .error error) → error.Overdraws scalars)
    (later : ∀ middle, world.Pays (due :: rest) middle rest →
      (∀ other ∈ rest, ∀ value ∈ other.values, middle.counter.ledger.book.Knows value) →
      middle.performAll (rest.map Due.call) = .error error → error.Overdraws scalars) :
    error.Overdraws scalars := by
  obtain ⟨here, others⟩ := List.forall_mem_cons.mp knows
  rw [List.map_cons, performAll] at failed
  split at failed
  next middle answer paid =>
    have pays := pays_due sound here paid
    exact later middle pays (fun other member value named =>
      (others other member value named).congr pays.items) failed
  next after reason refused =>
    cases failed
    exact first after refused

/-- A trade that is not paid in full. Its gains come first, and only a count that does not fit stops them. -/
theorem trade_error (sound : world.Sound (Due.trade id gains losses))
    (knows : ∀ due ∈ Due.trade id gains losses, ∀ value ∈ due.values,
      world.counter.ledger.book.Knows value)
    (knowsOwner : world.counter.ledger.book.Knows (.shared (.container id)))
    (failed : world.performAll ((Due.trade id gains losses).map Due.call) = .error error) :
    error.Overdraws (world.counter.ledger.book.scalarHolds world.heap world.created
      (Due.trade id gains losses)) := by
  -- Payments are made in order: first the gains, then what is owed once there are none.
  induction gains generalizing world with
  | nil =>
    induction losses generalizing world with
    | nil => cases failed
    | cons item rest ih =>
      have known := knows (.loss item (.shared (.container id))) List.mem_cons_self item
        (by simp [Due.values])
      refine performAll_error sound knows failed (fun _ => loss_error sound known knowsOwner) ?_
      intro middle pays knows failed
      exact pays.scalarHolds_eq ▸ ih pays.sound knows (knowsOwner.congr pays.items) failed
  | cons item rest ih =>
    refine performAll_error sound knows failed (fun _ refused => ?_) ?_
    · obtain ⟨failure, rfl, heard⟩ := pay_error sound refused
      obtain ⟨abort, rfl⟩ := Book.addEdge_error heard
      exact .inl ⟨abort, rfl⟩
    · intro middle pays knows failed
      exact pays.scalarHolds_eq ▸ ih pays.sound knows (knowsOwner.congr pays.items) failed

end World

end Reclaim
