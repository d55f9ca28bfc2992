import Reclaim.Proofs.Ledger.Total
import Reclaim.Proofs.World.Stretch

/-! Payments for the trades of a container. They change the total and the edges and nothing else. Where
no scalar has been let go more often than it was held, they all go through if the total has room for
the children gained. -/

set_option autoImplicit false

namespace Reclaim

theorem addCount_ok {count more : Nat} (fits : count + more ≤ maxCount) :
    addCount count more = .ok (count + more) :=
  addCount_eq_ok_iff.mpr ⟨rfl, fits⟩

namespace Book

variable {book : Book} {item : Value} {count : Nat} {id : Ident} {ref : Ref}

theorem exists_addHolds (fits : book.total + count ≤ maxCount)
    (held : ∀ id, item.id? = some id → book.heldBy id + count ≤ maxCount) :
    ∃ next, book.addHolds item count = .ok next := by
  cases item with
  | scalar atom =>
    rw [addHolds, addCount_ok fits]
    exact ⟨_, rfl⟩
  | shared ref =>
    have room := held ref.id rfl
    rw [← held_get] at room
    rw [addHolds, addCount_ok fits]
    simp only [Value.ref?_shared, addCount_ok room]
    exact ⟨_, rfl⟩

theorem removeHold_unheld (unheld : book.heldBy ref.id = 0) :
    book.removeHold (.shared ref) = .error (.holdUnderflow ref.id) := by
  unfold removeHold
  simp only [Value.ref?_shared]
  cases known : book.account ref.id with
  | none => rfl
  | some account =>
    rw [← held_eq known] at unheld
    simp only [unheld, if_true]

theorem exists_addEdge (knows : book.Knows (.shared (.container id)))
    (fits : book.total + 1 ≤ maxCount)
    (edges : ∀ child, item.id? = some child → book.edges child id + 1 ≤ maxCount) :
    ∃ next, book.addEdge item (.shared (.container id)) = .ok next := by
  unfold addEdge
  simp only [Value.container?, openOwner_eq knows]
  unfold link
  rw [addCount_ok fits]
  cases item with
  | scalar atom => exact ⟨_, rfl⟩
  | shared ref =>
    have room := edges ref.id rfl
    rw [← owners_get] at room
    simp only [Value.ref?_shared, addCount_ok room]
    exact ⟨_, rfl⟩

theorem exists_removeEdge (knows : book.Knows item) (knowsOwner : book.Knows (.shared (.container id)))
    (counted : 0 < book.total)
    (edges : ∀ child, item.id? = some child → 0 < book.edges child id) :
    ∃ next, book.removeEdge item (.shared (.container id)) = .ok next := by
  have nonempty := Nat.ne_of_gt counted
  obtain ⟨owner, ownerKnown⟩ := knowsOwner.exists_account
  have ownerKnown : book.account id = some owner := ownerKnown
  unfold removeEdge
  cases item with
  | scalar atom =>
    simp only [Value.container?, Value.ref?_scalar, ownerKnown, Option.isNone_some,
      Bool.false_eq_true, nonempty, if_false]
    exact ⟨_, rfl⟩
  | shared ref =>
    obtain ⟨account, known⟩ := knows.exists_account
    have recorded := edges ref.id rfl
    rw [← owners_eq known] at recorded
    simp only [Value.container?, Value.ref?_shared, ownerKnown, known, Nat.ne_of_gt recorded,
      nonempty, if_false]
    exact ⟨_, rfl⟩

end Book

/-- What is owed when a container has gained and lost children, in the order in which it is paid. -/
def Due.trade (id : Ident) (gains losses : List Value) : List Due :=
  gains.map (.gain · (.shared (.container id))) ++ losses.map (.loss · (.shared (.container id)))

theorem Due.shortfall_trade {id : Ident} {gains losses : List Value} :
    shortfall (trade id gains losses) = gains.length - losses.length := by
  rw [trade, shortfall_append, shortfall_gains, shortfall_losses, Int.sub_eq_add_neg]

namespace World

variable {world before middle after : World} {owed left rest : List Due} {due : Due} {answer : Answer}
  {id : Ident} {item : Value} {gains losses : List Value}

structure Pays (before : World) (owed : List Due) (after : World) (left : List Due) : Prop where
  heap : after.heap = before.heap
  created : after.created = before.created
  sound : after.Sound left
  items : ∀ id, after.counter.ledger.book.item? id = before.counter.ledger.book.item? id
  holds : ∀ id, after.counter.ledger.book.heldBy id = before.counter.ledger.book.heldBy id
  total : after.counter.ledger.book.total + Due.shortfall left =
    before.counter.ledger.book.total + Due.shortfall owed

theorem Pays.trans (first : before.Pays owed middle rest) (second : middle.Pays rest after left) :
    before.Pays owed after left where
  heap := second.heap.trans first.heap
  created := second.created.trans first.created
  sound := second.sound
  items id := (second.items id).trans (first.items id)
  holds id := (second.holds id).trans (first.holds id)
  total := second.total.trans first.total

theorem Pays.scalarHolds_eq (pays : before.Pays owed after left) :
    after.counter.ledger.book.scalarHolds after.heap after.created left =
      before.counter.ledger.book.scalarHolds before.heap before.created owed := by
  rw [Book.scalarHolds, Book.scalarHolds, pays.total, pays.heap, pays.created,
    Book.loads_congr pays.holds]

theorem perform_pay (performed : world.perform due.call = (after, .ok answer)) :
    after.heap = world.heap ∧ after.created = world.created := by
  have counted : ∀ result, world.count result = (after, .ok answer) →
      after.heap = world.heap ∧ after.created = world.created := by
    intro result counted
    cases result with
    | error failure => cases counted
    | ok counter =>
      cases counted
      exact ⟨rfl, rfl⟩
  unfold perform at performed
  split at performed
  next =>
    cases due with
    | gain item owner => exact counted _ performed
    | loss item owner => exact counted _ performed
  next => cases performed

theorem pays_due (sound : world.Sound (due :: rest))
    (knows : ∀ value ∈ due.values, world.counter.ledger.book.Knows value)
    (performed : world.perform due.call = (after, .ok answer)) :
    world.Pays (due :: rest) after rest := by
  obtain ⟨heap, created⟩ := perform_pay performed
  have member : due ∈ due :: rest := List.mem_cons_self
  have allowed : due.call.Allowed (due :: rest) := by
    cases due <;> exact member
  have kept : after.Sound rest := by
    have paid := sound.perform allowed performed
    cases due <;> simpa only [Due.call, Call.owedAfter, List.erase_cons_head] using paid
  have busy : due.call ≠ .settle := by
    cases due <;> exact fun same => by cases same
  have heard := sound.book_perform busy performed
  have shortfall : Due.shortfall (due :: rest) = due.references + Due.shortfall rest :=
    Due.shortfall_cons
  cases due with
  | gain item owner =>
    have added : world.counter.ledger.book.addEdge item owner = .ok after.counter.ledger.book := heard
    have total := Book.total_addEdge added
    exact
      { heap, created
        sound := kept
        items := fun id => Book.item?_addEdge added (knows item (by simp [Due.values]))
          (knows owner (by simp [Due.values]))
        holds := fun id => Book.heldBy_addEdge added
        total := by
          rw [Due.references] at shortfall
          omega }
  | loss item owner =>
    have removed := ok_of_mapError heard
    have total := Book.total_removeEdge removed
    exact
      { heap, created
        sound := kept
        items := fun id => Book.item?_removeEdge removed
        holds := fun id => Book.heldBy_removeEdge removed
        total := by
          rw [Due.references] at shortfall
          omega }

theorem performAll_pays (sound : world.Sound owed)
    (knows : ∀ due ∈ owed, ∀ value ∈ due.values, world.counter.ledger.book.Knows value)
    (performed : world.performAll (owed.map Due.call) = .ok after) : world.Pays owed after [] := by
  induction owed generalizing world with
  | nil =>
    cases performed
    exact ⟨rfl, rfl, sound, fun _ => rfl, fun _ => rfl, rfl⟩
  | cons due rest ih =>
    obtain ⟨here, later⟩ := List.forall_mem_cons.mp knows
    rw [List.map_cons, performAll] at performed
    split at performed
    next middle answer paid =>
      have first := pays_due sound here paid
      apply first.trans
      apply ih first.sound ?_ performed
      intro other member value named
      exact (later other member value named).congr first.items
    next => cases performed

theorem exists_pay (sound : world.Sound (due :: rest))
    (heard : ∃ next, world.counter.ledger.book.hear due.call = .ok next) :
    ∃ after, world.perform due.call = (after, .ok .done) := by
  have held : ∀ value ∈ due.call.values, world.heap.holds value := by
    have present := sound.ledger.owed_present due List.mem_cons_self
    cases due <;> exact present
  have answered : ∀ result : Except Failure Counter, (∃ next, result.map (·.ledger.book) = .ok next) →
      ∃ after, world.count result = (after, .ok .done) := by
    rintro result ⟨next, mapped⟩
    obtain ⟨counter, rfl, _⟩ := ok_of_map mapped
    exact ⟨_, rfl⟩
  unfold perform
  rw [if_pos (List.all_eq_true.mpr held)]
  cases due with
  | gain item owner =>
    apply answered
    rw [Counter.Sound.book_addEdge sound]
    exact heard
  | loss item owner =>
    apply answered
    rw [Counter.Sound.book_removeEdge sound]
    exact heard

/-- The first gain of a trade is paid if there is room for all of them. -/
theorem exists_gain (sound : world.Sound (Due.trade id (item :: gains) losses))
    (knowsOwner : world.counter.ledger.book.Knows (.shared (.container id)))
    (covered : 0 ≤ world.counter.ledger.book.scalarHolds world.heap world.created
      (Due.trade id (item :: gains) losses))
    (fits : world.counter.ledger.book.total + (item :: gains).length ≤ maxCount) :
    ∃ after, world.perform (Due.gain item (.shared (.container id))).call = (after, .ok .done) := by
  have present := sound.ledger.owed_present (.gain item (.shared (.container id))) List.mem_cons_self
  have ownerHeld := present (.shared (.container id)) (by simp [Due.values])
  have below := sound.ledger.formed.lt (.container id) ownerHeld
  have places : world.counter.ledger.book.load world.heap id ≤
      world.counter.ledger.book.loads world.heap world.created := Book.load_le_loads below
  rw [Book.load] at places
  rw [Book.scalarHolds, Due.shortfall_trade] at covered
  rw [List.length_cons] at covered fits
  apply exists_pay sound
  apply Book.exists_addEdge knowsOwner
  · omega
  · intro child named
    cases item with
    | scalar atom => cases named
    | shared ref =>
      cases named
      -- The edges on record are places that the owner has or has just lost, and the total covers both.
      have balanced := sound.ledger.balanced ref (.container id)
        (present (.shared ref) (by simp [Due.values])) ownerHeld
      have within := (world.heap.children (.container id)).count_le_length (a := .shared ref)
      have lost := losses.count_le_length (a := .shared ref)
      rw [sound.ledger.valid.edges_eq, Book.id_container] at balanced
      simp only [Due.trade, List.count_append, Due.count_map_gain, Due.count_map_loss,
        Due.count_gain_map_loss, Due.count_loss_map_gain, if_true, List.count_cons_self] at balanced
      rw [Heap.length_children, Heap.childCount] at within
      omega

theorem edges_pos_of_loss (sound : world.Sound (Due.trade id [] (item :: losses))) (child : Ident)
    (named : item.id? = some child) : 0 < world.counter.ledger.book.edges child id := by
  have present := sound.ledger.owed_present (.loss item (.shared (.container id))) List.mem_cons_self
  cases item with
  | scalar atom => cases named
  | shared ref =>
    cases named
    have balanced := sound.ledger.balanced ref (.container id)
      (present (.shared ref) (by simp [Due.values])) (present (.shared (.container id)) (by simp [Due.values]))
    rw [sound.ledger.valid.edges_eq, Book.id_container] at balanced
    simp only [Due.trade, List.count_append, Due.count_map_gain, Due.count_map_loss,
      Due.count_gain_map_loss, Due.count_loss_map_gain, if_true, List.count_cons_self,
      List.count_nil] at balanced
    omega

theorem exists_loss (sound : world.Sound (Due.trade id [] (item :: losses)))
    (knows : world.counter.ledger.book.Knows item)
    (knowsOwner : world.counter.ledger.book.Knows (.shared (.container id)))
    (covered : 0 ≤ world.counter.ledger.book.scalarHolds world.heap world.created
      (Due.trade id [] (item :: losses))) :
    ∃ after, world.perform (Due.loss item (.shared (.container id))).call = (after, .ok .done) := by
  rw [Book.scalarHolds, Due.shortfall_trade, List.length_cons, List.length_nil] at covered
  have counted : 0 < world.counter.ledger.book.total := by omega
  apply exists_pay sound
  obtain ⟨next, removed⟩ := Book.exists_removeEdge knows knowsOwner counted (edges_pos_of_loss sound)
  exact ⟨next, congrArg (·.mapError Failure.refused) removed⟩

theorem exists_performAll (sound : world.Sound (due :: rest))
    (knows : ∀ other ∈ due :: rest, ∀ value ∈ other.values, world.counter.ledger.book.Knows value)
    (paid : ∃ middle, world.perform due.call = (middle, .ok .done))
    (later : ∀ middle, world.Pays (due :: rest) middle rest →
      (∀ other ∈ rest, ∀ value ∈ other.values, middle.counter.ledger.book.Knows value) →
      ∃ after, middle.performAll (rest.map Due.call) = .ok after) :
    ∃ after, world.performAll ((due :: rest).map Due.call) = .ok after := by
  obtain ⟨middle, paid⟩ := paid
  obtain ⟨here, others⟩ := List.forall_mem_cons.mp knows
  have pays := pays_due sound here paid
  rw [List.map_cons, performAll_cons paid]
  apply later middle pays
  intro other member value named
  exact (others other member value named).congr pays.items

/-- All of a trade is paid if there is room for the gains. -/
theorem exists_trade (sound : world.Sound (Due.trade id gains losses))
    (knows : ∀ due ∈ Due.trade id gains losses, ∀ value ∈ due.values,
      world.counter.ledger.book.Knows value)
    (knowsOwner : world.counter.ledger.book.Knows (.shared (.container id)))
    (covered : 0 ≤ world.counter.ledger.book.scalarHolds world.heap world.created
      (Due.trade id gains losses))
    (fits : world.counter.ledger.book.total + gains.length ≤ maxCount) :
    ∃ after, world.performAll ((Due.trade id gains losses).map Due.call) = .ok after := by
  induction gains generalizing world with
  | nil =>
    -- Only losses are left.
    clear fits
    induction losses generalizing world with
    | nil => exact ⟨world, rfl⟩
    | cons item rest ih =>
      have known := knows (.loss item (.shared (.container id))) List.mem_cons_self item
        (by simp [Due.values])
      apply exists_performAll sound knows (exists_loss sound known knowsOwner covered)
      intro middle pays knows
      exact ih pays.sound knows (knowsOwner.congr pays.items) (pays.scalarHolds_eq.symm ▸ covered)
  | cons item rest ih =>
    apply exists_performAll sound knows (exists_gain sound knowsOwner covered fits)
    intro middle pays knows
    apply ih pays.sound knows (knowsOwner.congr pays.items) (pays.scalarHolds_eq.symm ▸ covered)
    have total := pays.total
    have shortfall : Due.shortfall (Due.trade id (item :: rest) losses) = _ := Due.shortfall_trade
    have left : Due.shortfall (Due.trade id rest losses) = _ := Due.shortfall_trade
    rw [List.length_cons] at shortfall fits
    change _ + Due.shortfall (Due.trade id rest losses) =
      _ + Due.shortfall (Due.trade id (item :: rest) losses) at total
    omega

end World

end Reclaim
