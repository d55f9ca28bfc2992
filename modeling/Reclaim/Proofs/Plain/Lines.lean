import Reclaim.Proofs.Plain.Abstraction
import Reclaim.Proofs.Replay.Eagerness
import Reclaim.Proofs.World.Overdraft

/-! What the lines of a script do to the plain heap that a session stands for. But for settles a session
does what the plain heap does, unless a count or a block does not fit. -/

set_option autoImplicit false

namespace Reclaim

namespace Op

def gains : Op → Nat
  | .push _ count => count
  | .append _ _ | .set _ _ _ | .put _ _ _ => 1
  | _ => 0

def capacity : Op → Nat
  | .newBuffer _ size => size
  | _ => 0

end Op

/-- A line that leaves no scalar let go more often than held, and that has room for all that it adds. -/
def Machine.Fits (before : Machine) (op : Op) (next : Machine) : Prop :=
  0 ≤ next.scalars ∧ before.total + op.gains ≤ maxCount ∧ op.capacity ≤ maxCapacity

instance {before next : Machine} {op : Op} : Decidable (before.Fits op next) :=
  inferInstanceAs (Decidable (_ ∧ _ ∧ _))

theorem Heap.content?_setContainer {heap : Heap} {id : Ident} {container : Container} (ref : Ref) :
    (heap.setContainer id container).content? ref =
      if ref = .container id then some container else heap.content? ref := by
  cases ref with
  | container other =>
    simp only [content?, container_setContainer, Ref.container.injEq, @eq_comm _ other]
    split <;> rfl
  | buffer other => simp [content?]

namespace Session

/-- A line has failed that the plain heap carries out: something does not fit, or the total is used up
after scalars have been let go more often than held. -/
def Overdraws (line : Nat) (machine : Machine) (fault : Fault) : Prop :=
  (∃ abort, fault = .aborted abort) ∨
    fault = .failed line (.ledger .totalUnderflow) ∧ machine.scalars < 0

inductive Mirrors (line : Nat) (fits : Machine → Prop) : Except Fault Machine → Except Fault Session → Prop where
  | failed (fault : Fault) : Mirrors line fits (.error fault) (.error fault)
  | done {machine : Machine} {next : Session} (same : machine = next.plain) (known : next.Known) :
      Mirrors line fits (.ok machine) (.ok next)
  | unfit {machine : Machine} {fault : Fault} (unfit : ¬fits machine)
      (overdraws : Overdraws line machine fault) : Mirrors line fits (.ok machine) (.error fault)

variable {session : Session} {line : Nat} {id : Ident} {item : Value} {name : String}
  {fits : Machine → Prop} {op : Op}

theorem overdraws_fault {machine : Machine} {error : CallError} (overdraws : error.Overdraws machine.scalars) :
    Overdraws line machine (error.fault line) := by
  obtain ⟨abort, rfl⟩ | ⟨rfl, overdrawn⟩ := overdraws
  · exact .inl ⟨abort, rfl⟩
  · exact .inr ⟨rfl, overdrawn⟩

theorem mirrors_lookup {machine : Value → Except Fault Machine} {result : Value → Except Fault Session}
    (mirrors : ∀ value, session.bindings[name]? = some value →
      Mirrors line fits (machine value) (result value)) :
    Mirrors line fits (session.plain.lookup line name >>= machine) (session.lookup line name >>= result) := by
  rw [lookup_plain]
  cases found : session.lookup line name with
  | error fault => exact .failed fault
  | ok value => exact mirrors value (lookup_ok found)

namespace Tracks

theorem mirrors_container {expected : Expected} {machine : Ident × Container → Except Fault Machine}
    {result : Ident × Container → Except Fault Session} (tracks : session.Tracks)
    (mirrors : ∀ id, session.bindings[name]? = some (.shared (.container id)) →
      expected.accepts (session.heap.container id).kind →
        Mirrors line fits (machine (id, session.heap.container id)) (result (id, session.heap.container id))) :
    Mirrors line fits (session.plain.container line name expected >>= machine)
      (session.container line name expected >>= result) := by
  rw [tracks.container_plain]
  cases found : session.container line name expected with
  | error fault => exact .failed fault
  | ok pair =>
    obtain ⟨id, container⟩ := pair
    obtain ⟨named, rfl, accepted⟩ := container_ok found
    exact mirrors id named accepted

theorem knows (tracks : session.Tracks) (named : session.bindings[name]? = some item) :
    session.book.Knows item := by
  intro id same
  cases item with
  | scalar atom => cases same
  | shared ref =>
    cases same
    rw [tracks.entered name ref named]
    rfl

theorem below (tracks : session.Tracks) (named : session.bindings[name]? = some item) (id : Ident)
    (same : item.id? = some id) : id < session.created :=
  tracks.counter.ledger.below_of_holds (tracks.bound name item named) id same

theorem knows_child (tracks : session.Tracks) {child : Value}
    (member : child ∈ (session.heap.container id).children) : session.book.Knows child := by
  intro childId same
  cases child with
  | scalar atom => cases same
  | shared ref =>
    cases same
    have contains : session.heap.Contains (.container id) ref := member
    have tracked := (tracks.counter.ledger.tracked_of_contains contains).2
    rw [tracks.item?_of_tracked tracked]
    rfl

end Tracks

namespace Tracks

section Trades

variable {container : Container} {gains losses : List Value} {owner : String}

theorem cells_container (tracks : session.Tracks) {next : Session}
    (ownerKnown : session.book.item? id = some (.container id))
    (items : ∀ id, next.book.item? id = session.book.item? id)
    (holds : ∀ id, next.book.heldBy id = session.book.heldBy id)
    (heap : next.heap = session.heap.setContainer id container)
    (origins : next.origins = session.origins) (other : Ident) :
    (session.plain.setContent id container).cells other = next.plain.cells other := by
  simp only [Machine.setContent, Machine.modify, plain, items, holds, heap, origins,
    Heap.content?_setContainer]
  split
  next here =>
    rw [here, ownerKnown]
    simp
  next apart =>
    cases known : session.book.item? other with
    | none => rfl
    | some ref =>
      obtain ⟨_, same⟩ := tracks.item?_eq_some.mp known
      have elsewhere : ref ≠ .container id := fun here => apart (same ▸ here ▸ rfl)
      simp [elsewhere]

theorem known_container (tracks : session.Tracks) {next : Session}
    (ownerKnown : session.book.item? id = some (.container id))
    (items : ∀ id, next.book.item? id = session.book.item? id)
    (heap : next.heap = session.heap.setContainer id container)
    (bindings : next.bindings = session.bindings) : next.Known where
  entered name ref named := by
    rw [bindings] at named
    exact (items ref.id).trans (tracks.entered name ref named)
  childless other unknown := by
    rw [items] at unknown
    have apart : id ≠ other := by
      rintro rfl
      rw [ownerKnown] at unknown
      cases unknown
    rw [heap, Heap.container_setContainer, if_neg apart]
    exact tracks.childless other unknown

theorem knows_trade (tracks : session.Tracks)
    (ownerNamed : session.bindings[owner]? = some (.shared (.container id)))
    (gained : ∀ value ∈ gains, ∃ name : String, session.bindings[name]? = some value)
    (trades : (session.heap.container id).Trades container gains losses) :
    ∀ due ∈ Due.trade id gains losses, ∀ value ∈ due.values, session.book.Knows value := by
  have gainKnown : ∀ value ∈ gains, session.book.Knows value := by
    intro value member
    obtain ⟨name, named⟩ := gained value member
    exact tracks.knows named
  have lossKnown : ∀ value ∈ losses, session.book.Knows value := by
    intro value member
    rcases List.mem_append.mp (trades.mem_iff.mp (List.mem_append_left _ member)) with new | child
    · exact gainKnown value new
    · exact tracks.knows_child child
  intro due member value named
  rcases List.mem_append.mp member with gain | loss
  · obtain ⟨child, new, rfl⟩ := List.mem_map.mp gain
    obtain rfl | rfl : value = child ∨ value = _ := by simpa [Due.values] using named
    · exact gainKnown value new
    · exact tracks.knows ownerNamed
  · obtain ⟨child, old, rfl⟩ := List.mem_map.mp loss
    obtain rfl | rfl : value = child ∨ value = _ := by simpa [Due.values] using named
    · exact lossKnown value old
    · exact tracks.knows ownerNamed

/-- A container changes, and the counter is told of all that it gains and loses. -/
theorem mirrors_trade (tracks : session.Tracks) (gains losses : List Value)
    (ownerNamed : session.bindings[owner]? = some (.shared (.container id)))
    (gained : ∀ value ∈ gains, ∃ name : String, session.bindings[name]? = some value)
    (trades : (session.heap.container id).Trades container gains losses)
    (room : gains.length ≤ op.gains) :
    Mirrors line (session.plain.Fits op) (.ok (session.plain.setContent id container))
      ((session.setContainer id container).tell line ((Due.trade id gains losses).map Due.call)) := by
  have ownerKnown : session.book.item? id = some (.container id) := tracks.entered owner _ ownerNamed
  have ownerHeld := tracks.bound owner _ ownerNamed
  have knows := tracks.knows_trade ownerNamed gained trades
  have sound : (session.setContainer id container).world.Sound (Due.trade id gains losses) := by
    have held : ∀ value ∈ gains, session.heap.holds value := by
      intro value member
      obtain ⟨name, named⟩ := gained value member
      exact tracks.bound name value named
    have traded := tracks.agrees.trade gains ownerHeld held trades
    rwa [List.append_nil] at traded
  have scalars : session.book.scalarHolds (session.heap.setContainer id container) session.created
      (Due.trade id gains losses) = session.plain.scalars := by
    have below := tracks.counter.ledger.formed.lt _ ownerHeld
    rw [← List.append_nil (Due.trade id gains losses)]
    exact Book.scalarHolds_trade below trades
  cases performed : (session.setContainer id container).world.performAll
      ((Due.trade id gains losses).map Due.call) with
  | error error =>
    -- Had there been room for the trade, it would have been paid in full.
    rw [tell, performed]
    refine .unfit ?_ (overdraws_fault ?_)
    case refine_2 =>
      have overdraws := World.trade_error sound knows (tracks.knows ownerNamed) performed
      exact overdraws.imp_right (And.imp_right (scalars.symm.trans_lt ·))
    rintro ⟨covered, fits, _⟩
    rw [tracks.total_plain] at fits
    have room : session.book.total + gains.length ≤ maxCount := by
      have total : session.book.total = session.counter.ledger.total := rfl
      omega
    obtain ⟨after, paid⟩ :=
      World.exists_trade sound knows (tracks.knows ownerNamed) (scalars.symm ▸ covered) room
    rw [paid] at performed
    cases performed
  | ok after =>
    rw [tell, performed]
    have pays := World.performAll_pays sound knows performed
    apply Mirrors.done
    · apply plain_eq
      · exact tracks.cells_container ownerKnown pays.items pays.holds pays.heap rfl
      · exact (pays.scalarHolds_eq.trans scalars).symm
      · rfl
      · exact pays.created.symm
    · exact tracks.known_container ownerKnown pays.items pays.heap rfl

theorem mirrors_gain (tracks : session.Tracks) (losses : List Value)
    (ownerNamed : session.bindings[owner]? = some (.shared (.container id)))
    (named : session.bindings[name]? = some item)
    (trades : (session.heap.container id).Trades container [item] losses) (room : 1 ≤ op.gains) :
    Mirrors line (session.plain.Fits op) (.ok (session.plain.setContent id container))
      ((session.setContainer id container).gain line id item >>= (·.loseAll line id losses)) := by
  have itemHeld := tracks.bound name item named
  have lossHeld : ∀ old ∈ losses, session.heap.holds old := by
    intro old member
    rcases List.mem_append.mp (trades.mem_iff.mp (List.mem_append_left _ member)) with new | child
    · rw [List.mem_singleton.mp new]
      exact itemHeld
    · exact tracks.children_held child
  have told : Mirrors line (session.plain.Fits op) _ ((session.setContainer id container).tell line _) :=
    tracks.mirrors_trade [item] losses ownerNamed (List.forall_mem_singleton.mpr ⟨name, named⟩) trades room
  rw [Due.trade, List.map_append, List.map_map, List.map_map] at told
  rw [← tell_gain_loseAll (Sound.held_setContainer itemHeld)
    (Sound.held_setContainer (tracks.bound owner _ ownerNamed))
    fun old member => Sound.held_setContainer (lossHeld old member)]
  exact told

theorem mirrors_loseAll (tracks : session.Tracks) (losses : List Value)
    (ownerNamed : session.bindings[owner]? = some (.shared (.container id)))
    (trades : (session.heap.container id).Trades container [] losses) :
    Mirrors line (session.plain.Fits op) (.ok (session.plain.setContent id container))
      ((session.setContainer id container).loseAll line id losses) := by
  have lossHeld : ∀ old ∈ losses, session.heap.holds old := fun old member =>
    tracks.children_held (trades.mem_iff.mp (List.mem_append_left _ member))
  have told : Mirrors line (session.plain.Fits op) _ ((session.setContainer id container).tell line _) :=
    tracks.mirrors_trade [] losses ownerNamed (fun _ gained => nomatch gained) trades (Nat.zero_le _)
  rw [Due.trade, List.map_nil, List.nil_append, List.map_map] at told
  rw [← tell_loseAll (fun old member => Sound.held_setContainer (lossHeld old member))
    (Sound.held_setContainer (tracks.bound owner _ ownerNamed))]
  exact told

end Trades

section Holds

variable {counter : Counter} {count : Nat}

theorem known_count (tracks : session.Tracks)
    (items : ∀ id, counter.ledger.book.item? id = session.book.item? id) :
    Known { session with counter } where
  entered name ref named := (items ref.id).trans (tracks.entered name ref named)
  childless id unknown := tracks.childless id ((items id).symm.trans unknown)

/-- Where no scalar has been let go more often than held, the total covers the holds on a value. -/
theorem held_le_total (covered : 0 ≤ session.plain.scalars) (below : id < session.created) :
    session.book.heldBy id ≤ session.book.total := by
  have load : session.book.load session.heap id ≤ session.book.loads session.heap session.created :=
    Book.load_le_loads below
  rw [scalars_plain] at covered
  rw [Book.load] at load
  omega

theorem cells_modify {ref : Ref} (change : Nat → Nat)
    (items : ∀ id, counter.ledger.book.item? id = session.book.item? id)
    (held : ∀ id, counter.ledger.book.heldBy id =
      if ref.id = id then change (session.book.heldBy id) else session.book.heldBy id) (id : Ident) :
    (session.plain.modify ref.id fun cell => { cell with held := change cell.held }).cells id =
      (plain { session with counter }).cells id := by
  simp only [Machine.modify, plain, items, held]
  split
  next here =>
    subst here
    simp [Function.comp_def]
  next apart => simp [Ne.symm apart]

theorem plain_addHolds (tracks : session.Tracks) (named : session.bindings[name]? = some item)
    (added : session.book.addHolds item count = .ok counter.ledger.book) :
    session.plain.addHolds count item = plain { session with counter } := by
  have items : ∀ id, counter.ledger.book.item? id = session.book.item? id := fun id =>
    Book.item?_addHolds added (tracks.knows named)
  have holds := Book.heldBy_addHolds added
  have scalars : counter.ledger.book.scalarHolds session.heap session.created [] = _ :=
    Book.scalarHolds_addHolds added (tracks.below named)
  cases item with
  | scalar atom =>
    apply plain_eq
    · intro id
      simp [Machine.addHolds, plain, items, holds, Value.id?]
    · exact scalars.symm
    · rfl
    · rfl
  | shared ref =>
    apply plain_eq
    · apply cells_modify (· + count) items
      intro id
      simp only [holds, Book.id?_shared, Option.some.injEq]
      split <;> rfl
    · exact (scalars.trans (Int.add_zero _)).symm
    · rfl
    · rfl

theorem mirrors_addHolds (tracks : session.Tracks) (named : session.bindings[name]? = some item) :
    Mirrors line (session.plain.Fits (.push name count)) (.ok (session.plain.addHolds count item))
      (session.count line (·.addHolds item count)) := by
  have heard : (session.counter.addHolds item count).map (·.ledger.book) = _ :=
    tracks.counter.book_addHolds
  unfold Session.count
  cases result : session.counter.addHolds item count with
  | ok counter =>
    simp only [result]
    rw [result] at heard
    have added := ok_of_mapError heard.symm
    apply Mirrors.done (tracks.plain_addHolds named added)
    exact tracks.known_count fun id => Book.item?_addHolds added (tracks.knows named)
  | error failure =>
    have unfit : ¬session.plain.Fits (.push name count) (session.plain.addHolds count item) := by
      rintro ⟨covered, fits, _⟩
      rw [tracks.total_plain] at fits
      have room : session.book.total + count ≤ maxCount := Int.ofNat_le.mp fits
      have held : ∀ id, item.id? = some id → session.book.heldBy id + count ≤ maxCount := by
        intro id same
        cases item with
        | scalar atom => cases same
        | shared ref =>
          -- The holds on one value are part of the total, which has room.
          have covers : session.book.heldBy id ≤ session.book.total :=
            held_le_total covered (tracks.below named id same)
          omega
      obtain ⟨next, added⟩ := Book.exists_addHolds room held
      rw [result, added] at heard
      cases heard
    cases failure
    case refused error =>
      rw [result] at heard
      cases added : session.book.addHolds item count <;> rw [added] at heard <;> cases heard
    case aborted abort => simpa only [result] using .unfit unfit (.inl ⟨abort, rfl⟩)

theorem plain_removeHold (tracks : session.Tracks) (named : session.bindings[name]? = some item)
    (removed : session.book.removeHold item = .ok counter.ledger.book) :
    session.plain.removeHold line item = .ok (plain { session with counter }) := by
  have items : ∀ id, counter.ledger.book.item? id = session.book.item? id := fun id =>
    Book.item?_removeHold removed
  have holds := Book.heldBy_removeHold removed
  have scalars : counter.ledger.book.scalarHolds session.heap session.created [] = _ :=
    Book.scalarHolds_removeHold removed (tracks.below named)
  cases item with
  | scalar atom =>
    apply congrArg Except.ok
    apply plain_eq
    · intro id
      simp [plain, items, holds, Value.id?]
    · exact scalars.symm
    · rfl
    · rfl
  | shared ref =>
    have positive := holds ref.id
    rw [Book.id?_shared, if_pos rfl] at positive
    rw [Machine.removeHold, held_plain, if_neg (by omega)]
    apply congrArg Except.ok
    apply plain_eq
    · apply cells_modify (· - 1) items
      intro id
      rw [holds, Book.id?_shared]
      simp only [Option.some.injEq]
      split <;> rfl
    · exact (scalars.trans (Int.sub_zero _)).symm
    · rfl
    · rfl

/-- Where the total is used up, a hold that can be let go leaves scalars let go more often than held. -/
theorem overdrawn_removeHold (tracks : session.Tracks) (named : session.bindings[name]? = some item)
    (empty : session.book.total = 0) (held : ∀ ref, item = .shared ref → session.book.heldBy ref.id ≠ 0) :
    ∃ next, session.plain.removeHold line item = .ok next ∧ next.scalars < 0 := by
  cases item with
  | scalar atom =>
    refine ⟨_, rfl, ?_⟩
    have scalars : session.plain.scalars = _ := scalars_plain
    show session.plain.scalars - 1 < 0
    omega
  | shared ref =>
    have unheld := held ref rfl
    refine ⟨_, by rw [Machine.removeHold, held_plain, if_neg unheld], Int.lt_of_not_ge fun covered => ?_⟩
    have covers : session.book.heldBy ref.id ≤ session.book.total :=
      held_le_total covered (tracks.below named ref.id rfl)
    omega

theorem mirrors_removeHold (tracks : session.Tracks) (named : session.bindings[name]? = some item) :
    Mirrors line (session.plain.Fits (.pop name)) (session.plain.removeHold line item)
      (session.count line (·.removeHold item)) := by
  have heard : (session.counter.removeHold item).map (·.ledger.book) = _ :=
    tracks.counter.book_removeHold
  unfold Session.count
  cases removed : session.book.removeHold item with
  | ok next =>
    rw [removed] at heard
    obtain ⟨counter, result, rfl⟩ := ok_of_map heard
    simp only [result, tracks.plain_removeHold named removed]
    exact .done rfl (tracks.known_count fun id => Book.item?_removeHold removed)
  | error error =>
    rw [removed] at heard
    have result := error_of_map heard
    simp only [result]
    obtain ⟨rfl, empty⟩ | ⟨ref, rfl, rfl, unheld⟩ := Book.removeHold_error removed
    · have held : ∀ ref, item = .shared ref → session.book.heldBy ref.id ≠ 0 := by
        rintro ref rfl unheld
        rw [Book.removeHold_unheld unheld] at removed
        cases removed
      obtain ⟨next, done, overdrawn⟩ := tracks.overdrawn_removeHold named empty held
      rw [done]
      exact .unfit (fun fits => absurd fits.1 (Int.not_le.mpr overdrawn)) (.inr ⟨rfl, overdrawn⟩)
    · rw [Machine.removeHold, held_plain, if_pos unheld]
      exact .failed _

end Holds

section Creation

variable {heap : Heap} {content : Option Container}

theorem mirrors_bind (tracks : session.Tracks) (atom : Scalar) :
    Mirrors line fits (.ok (session.plain.bind name (.scalar atom)))
      (.ok (session.bind name (.scalar atom))) := by
  have same : session.plain.bind name (.scalar atom) = (session.bind name (.scalar atom)).plain := rfl
  apply Mirrors.done same
  constructor
  · intro other ref named
    rw [Session.bind, Std.ExtTreeMap.getElem?_insert] at named
    split at named
    · cases named
    · exact tracks.entered other ref named
  · exact tracks.childless

theorem book_create (tracks : session.Tracks) (ref : Ref) :
    (session.create ref name heap).book = session.book.register (.shared ref) :=
  tracks.counter.book_register

theorem item?_create (tracks : session.Tracks) (ref : Ident → Ref)
    (fresh : (ref session.created).id = session.created) (id : Ident) :
    (session.create (ref session.created) name heap).book.item? id =
      if id = session.created then some (ref session.created) else session.book.item? id := by
  have unknown := Book.item?_eq_none.mp tracks.item?_created
  rw [tracks.book_create, Book.item?_register, Book.get, fresh, unknown]
  rfl

theorem cells_create (tracks : session.Tracks) (ref : Ident → Ref)
    (fresh : (ref session.created).id = session.created)
    (same : ∀ id ≠ session.created, heap.container id = session.heap.container id)
    (made : heap.content? (ref session.created) = content) (id : Ident) :
    (session.plain.create ref name content).cells id =
      (session.create (ref session.created) name heap).plain.cells id := by
  have holds : (session.create (ref session.created) name heap).book.heldBy id =
      session.book.heldBy id := by rw [tracks.book_create, Book.heldBy_register]
  have origins : (session.create (ref session.created) name heap).origins[id]? =
      if session.created = id then some name else session.origins[id]? := by
    simp only [Session.create, fresh, getElem?_insert_key]
  have contents : (session.create (ref session.created) name heap).heap = heap := rfl
  have created : session.plain.created = session.created := rfl
  simp only [Machine.create, created, cells_plain, tracks.item?_create ref fresh, holds, origins,
    contents]
  by_cases here : id = session.created
  · simp [here, made, tracks.heldBy_created]
  · simp only [if_neg here, if_neg (Ne.symm here)]
    cases known : session.book.item? id with
    | none => rfl
    | some item =>
      obtain ⟨_, rfl⟩ := tracks.item?_eq_some.mp known
      have kept : heap.content? item = session.heap.content? item := by
        cases item with
        | container other => exact congrArg some (same other here)
        | buffer other => rfl
      rw [Option.map_some, Option.map_some, kept]

theorem scalars_create (tracks : session.Tracks) (ref : Ident → Ref)
    (same : ∀ id ≠ session.created, heap.container id = session.heap.container id)
    (empty : (heap.container session.created).length = 0) :
    (session.create (ref session.created) name heap).plain.scalars = session.plain.scalars := by
  have lengths : ∀ id < session.created,
      (heap.container id).length = (session.heap.container id).length := fun id below => by
    rw [same id (Nat.ne_of_lt below)]
  have scalars : (session.create (ref session.created) name heap).plain.scalars =
      (session.create (ref session.created) name heap).book.scalarHolds heap (session.created + 1) [] :=
    rfl
  rw [scalars, tracks.book_create, Book.scalarHolds_register,
    Book.scalarHolds_make tracks.heldBy_created empty lengths]
  rfl

theorem mirrors_create (tracks : session.Tracks) (ref : Ident → Ref)
    (fresh : (ref session.created).id = session.created)
    (same : ∀ id ≠ session.created, heap.container id = session.heap.container id)
    (empty : (heap.container session.created).length = 0)
    (made : heap.content? (ref session.created) = content) :
    Mirrors line fits (.ok (session.plain.create ref name content))
      (.ok (session.create (ref session.created) name heap)) := by
  have items : ∀ id, (session.create (ref session.created) name heap).book.item? id = _ :=
    tracks.item?_create ref fresh
  apply Mirrors.done
  · apply plain_eq
    · exact tracks.cells_create ref fresh same made
    · exact (tracks.scalars_create ref same empty).symm
    · rfl
    · rfl
  · constructor
    · intro other found named
      rw [items]
      rw [Session.create, Std.ExtTreeMap.getElem?_insert] at named
      split at named
      · cases named
        rw [if_pos fresh]
      -- Whatever a name was bound to before has an identity below the new one.
      · have below := tracks.below named found.id rfl
        rw [if_neg (Nat.ne_of_lt below)]
        exact tracks.entered other found named
    · intro id unknown
      rw [items] at unknown
      split at unknown
      · cases unknown
      next apart =>
        have contents : (session.create (ref session.created) name heap).heap = heap := rfl
        rw [contents, same id apart]
        exact tracks.childless id unknown

end Creation

section Lines

variable {owner child key : String} {index : Nat}

theorem mirrors_new (tracks : session.Tracks) (kind : Kind) :
    Mirrors line fits (.ok (session.plain.create .container name (some (.empty kind))))
      (.ok (session.newContainer kind name)) := by
  have next : session.nextIdent = session.created := tracks.identify session.created
  rw [newContainer, next]
  apply tracks.mirrors_create .container rfl
  · intro id apart
    rw [Heap.newContainer, Heap.container_setContainer, if_neg (Ne.symm apart)]
  · rw [Heap.newContainer, Heap.container_setContainer, if_pos rfl, ← Container.length_children,
      Container.children_empty]
    rfl
  · rw [Heap.newContainer, Heap.content?_setContainer, if_pos rfl]

theorem mirrors_newBuffer (tracks : session.Tracks) (size : Nat) :
    Mirrors line (session.plain.Fits (.newBuffer name size)) (.ok (session.plain.create .buffer name none))
      (session.newBuffer name size) := by
  have next : session.nextIdent = session.created := tracks.identify session.created
  rw [newBuffer, next, Heap.newBuffer]
  split
  next =>
    apply tracks.mirrors_create .buffer rfl
    · exact fun _ _ => rfl
    · exact tracks.childless session.created tracks.item?_created
    · rfl
  next exceeds => exact .unfit (fun fits => exceeds fits.2.2) (.inl ⟨_, rfl⟩)

theorem mirrors_push (tracks : session.Tracks) (count : Nat) :
    Mirrors line (session.plain.Fits (.push name count)) (session.plain.push line name count)
      (session.push line name count) := by
  apply mirrors_lookup
  intro item named
  exact tracks.mirrors_addHolds named

theorem mirrors_pop (tracks : session.Tracks) :
    Mirrors line (session.plain.Fits (.pop name)) (session.plain.pop line name) (session.pop line name) := by
  apply mirrors_lookup
  intro item named
  exact tracks.mirrors_removeHold named

theorem mirrors_append (tracks : session.Tracks) :
    Mirrors line (session.plain.Fits (.append owner child)) (session.plain.append line owner child)
      (session.append line owner child) := by
  apply tracks.mirrors_container
  intro id ownerNamed list
  apply mirrors_lookup
  intro item named
  obtain ⟨next, pushed⟩ := push?_of_list item list
  simp only [pushed, Option.getD_some]
  have gained : Mirrors line (session.plain.Fits (.append owner child)) _
      ((session.setContainer id next).gain line id item >>= _) :=
    tracks.mirrors_gain [] ownerNamed named (Container.trades_push? pushed) (Nat.le_refl 1)
  cases result : (session.setContainer id next).gain line id item <;> rw [result] at gained <;>
    exact gained

theorem mirrors_set (tracks : session.Tracks) :
    Mirrors line (session.plain.Fits (.set owner index child)) (session.plain.set line owner index child)
      (session.set line owner index child) := by
  apply tracks.mirrors_container
  intro id ownerNamed _
  apply mirrors_lookup
  intro item named
  simp only [lose_eq_loseAll]
  cases changed : (session.heap.container id).set? index item with
  | none => exact .failed _
  | some pair =>
    exact tracks.mirrors_gain [pair.1] ownerNamed named (Container.trades_set? changed) (Nat.le_refl 1)

theorem mirrors_put (tracks : session.Tracks) :
    Mirrors line (session.plain.Fits (.put owner key child)) (session.plain.put line owner key child)
      (session.put line owner key child) := by
  apply tracks.mirrors_container
  intro id ownerNamed map
  apply mirrors_lookup
  intro item named
  obtain ⟨next, inserted⟩ := insert?_of_map (encodeText key) item map
  simp only [inserted, Option.getD_some]
  exact tracks.mirrors_gain _ ownerNamed named (Container.trades_insert? inserted) (Nat.le_refl 1)

theorem mirrors_remove (tracks : session.Tracks) :
    Mirrors line (session.plain.Fits op) (session.plain.remove line owner index)
      (session.remove line owner index) := by
  apply tracks.mirrors_container
  intro id ownerNamed _
  simp only [lose_eq_loseAll]
  cases changed : (session.heap.container id).remove? index with
  | none => exact .failed _
  | some pair => exact tracks.mirrors_loseAll [pair.1] ownerNamed (Container.trades_remove? changed)

theorem mirrors_delete (tracks : session.Tracks) :
    Mirrors line (session.plain.Fits op) (session.plain.delete line owner key)
      (session.delete line owner key) := by
  apply tracks.mirrors_container
  intro id ownerNamed _
  simp only [lose_eq_loseAll]
  cases changed : (session.heap.container id).removeKey? (encodeText key) with
  | none => exact .failed _
  | some pair => exact tracks.mirrors_loseAll [pair.1] ownerNamed (Container.trades_removeKey? changed)

theorem mirrors_clear (tracks : session.Tracks) :
    Mirrors line (session.plain.Fits op) (session.plain.clear line owner) (session.clear line owner) := by
  apply tracks.mirrors_container
  intro id ownerNamed _
  exact tracks.mirrors_loseAll _ ownerNamed Container.trades_clear

/-- A line that is not a settle does to the plain heap what it does to the session. -/
theorem mirrors_step {step : ScriptLine} (tracks : session.Tracks) (budget : Budget)
    (busy : step.op ≠ .settle) : ∃ machine result,
      session.plain.step budget step = machine.map (fun next => (next, none)) ∧
      (session.step step).outcome = result.map (fun next => (next, none)) ∧
      Mirrors step.number (session.plain.Fits step.op) machine result := by
  obtain ⟨line, op⟩ := step
  cases op with
  | settle => exact absurd rfl busy
  | newContainer kind name => exact ⟨_, _, rfl, rfl, tracks.mirrors_new kind⟩
  | newBuffer name size => exact ⟨_, _, rfl, rfl, tracks.mirrors_newBuffer size⟩
  | int name value => exact ⟨_, _, rfl, rfl, tracks.mirrors_bind (.integer value)⟩
  | bytes name text => exact ⟨_, _, rfl, rfl, tracks.mirrors_bind (.bytes (encodeText text))⟩
  | push name count => exact ⟨_, _, rfl, rfl, tracks.mirrors_push count⟩
  | pop name => exact ⟨_, _, rfl, rfl, tracks.mirrors_pop⟩
  | append owner child => exact ⟨_, _, rfl, rfl, tracks.mirrors_append⟩
  | set owner index child => exact ⟨_, _, rfl, rfl, tracks.mirrors_set⟩
  | put owner key child => exact ⟨_, _, rfl, rfl, tracks.mirrors_put⟩
  | remove owner index => exact ⟨_, _, rfl, rfl, tracks.mirrors_remove⟩
  | delete owner key => exact ⟨_, _, rfl, rfl, tracks.mirrors_delete⟩
  | clear owner => exact ⟨_, _, rfl, rfl, tracks.mirrors_clear⟩

end Lines

end Tracks

end Session

end Reclaim
