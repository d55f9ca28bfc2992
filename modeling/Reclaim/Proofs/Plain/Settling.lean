import Reclaim.Proofs.Plain.Abstraction
import Reclaim.Proofs.Replay.Agreement
import Reclaim.Proofs.World.Precision

/-! What settles do to the plain heap that a session stands for. A settle that succeeds deletes cells
that nothing held leads to, and takes no hold away. Where holds were never added none at a time, it
deletes all of them. -/

set_option autoImplicit false

namespace Reclaim

theorem Heap.content?_releaseAll {heap : Heap} {refs : List Ref} {ref : Ref} (kept : ref ∉ refs) :
    (heap.releaseAll refs).content? ref = heap.content? ref := by
  cases ref with
  | container id =>
    have same : (heap.releaseAll refs).container id = heap.container id := by
      simp [Heap.container, Std.ExtTreeMap.getD_eq_getD_getElem?, Heap.containers_releaseAll, kept]
    exact congrArg some same
  | buffer id => rfl

section Settled

variable {book : Book} {id : Ident}

theorem Book.item?_settled : book.settled.item? id = book.item? id := by
  rw [item?, settled, Option.map_map]
  rfl

theorem Book.heldBy_settled : book.settled.heldBy id = book.heldBy id := by
  rw [heldBy, settled, Option.map_map]
  rfl

end Settled

namespace Counter

variable {counter : Counter} {heap : Heap} {created : Nat} {refs : List Ref} {settlement : Settlement}

/-- Besides, the book forgets what has been taken out and nothing else, and all that is dead has been
taken out if what is pending leads to it. -/
structure Settles (counter : Counter) (heap : Heap) (created : Nat) (refs : List Ref)
    (settlement : Settlement) : Prop extends counter.Leaves heap refs settlement where
  items : ∀ id, settlement.counter.ledger.book.item? id =
    if id ∈ refs.map Ref.id then none else counter.ledger.book.item? id
  holds : ∀ id, settlement.counter.ledger.book.heldBy id = counter.ledger.book.heldBy id
  scalars : settlement.counter.ledger.book.scalarHolds settlement.heap created [] =
    counter.ledger.book.scalarHolds heap created []
  nodup : refs.Nodup
  complete : counter.ledger.book.Covered → ∀ ref, ref ∈ refs ↔
    ref ∈ counter.ledger.tracked ∧ ¬counter.ledger.Live heap ref

theorem heldBy_of_dead {ref : Ref} (sound : counter.Sound heap created [])
    (tracked : ref ∈ counter.ledger.tracked) (dead : ¬counter.ledger.Live heap ref) :
    counter.ledger.book.heldBy ref.id = 0 := by
  rw [sound.ledger.heldBy_eq]
  apply Nat.eq_zero_of_not_pos
  intro held
  exact dead ⟨ref, tracked, held, .refl⟩

theorem Collects.settles (sound : counter.Sound heap created [])
    (collects : counter.cleared.Collects heap created refs settlement) :
    counter.Settles heap created refs settlement := by
  have cleared : counter.cleared.ledger.book = counter.ledger.book.settled := Ledger.book_settled
  have book : settlement.counter.ledger.book = _ := collects.collects.removes.book
  rw [cleared] at book
  refine { collects.leaves with
    items := fun id => ?_, holds := fun id => ?_, scalars := ?_, nodup := collects.collects.nodup
    complete := fun _ => collects.complete }
  · rw [book, Book.item?_withdraw, Book.item?_settled]
  · rw [book, Book.heldBy_withdraw, Book.heldBy_settled]
    split
    next member =>
      obtain ⟨ref, removed, rfl⟩ := List.mem_map.mp member
      obtain ⟨tracked, dead⟩ := collects.leaves.dead ref removed
      exact (heldBy_of_dead sound tracked dead).symm
    next => rfl
  · have kept := collects.collects.scalarHolds_eq sound.cleared.ledger
    rw [cleared] at kept
    exact kept.trans (by rw [Book.scalarHolds, Book.scalarHolds,
      Book.loads_congr fun _ => Book.heldBy_settled]; rfl)

theorem settles_skip (sound : counter.Sound heap created [])
    (idle : counter.ledger.hasPending = false) :
    counter.Settles heap created [] (counter.skip heap) where
  toLeaves := leaves_skip
  items _ := by simp [skip]
  holds _ := rfl
  scalars := rfl
  nodup := .nil
  complete covered ref := by
    have live := sound.ledger.live_of_covered covered idle ref
    simpa using live

theorem Sound.settles {count : Nat} (sound : counter.Sound heap created [])
    (settled : (counter.settle heap).result = .ok count) :
    ∃ refs, counter.Settles heap created refs (counter.settle heap) := by
  by_cases passes : counter.ledger.hasPending || counter.eager
  · obtain ⟨refs, collects⟩ | refuses := settle_exact sound passes
    · exact ⟨refs, collects.settles sound⟩
    · rw [refuses.result] at settled
      cases settled
  · rw [skip_of_idle passes]
    rw [Bool.or_eq_true, not_or, Bool.not_eq_true] at passes
    exact ⟨[], settles_skip sound passes.1⟩

/-- A total that covers all contents covers those of the dead values. -/
theorem Sound.exists_settle (sound : counter.Sound heap created [])
    (covers : heap.childTotal counter.ledger.tracked ≤ counter.ledger.total) :
    ∃ count, (counter.settle heap).result = .ok count := by
  by_cases passes : counter.ledger.hasPending || counter.eager
  · obtain ⟨refs, collects⟩ | ⟨_, refs, nodup, dead, short⟩ := settle_exact sound passes
    · exact ⟨_, collects.result⟩
    · have included : ∀ ref ∈ refs, ref ∈ counter.ledger.tracked := fun ref member =>
        (dead ref member).1
      exact absurd ((Heap.childTotal_le nodup included).trans covers) (Nat.not_le.mpr short)
  · rw [skip_of_idle passes]
    exact ⟨_, rfl⟩

end Counter

namespace Session

variable {session : Session} {line count : Nat} {refs : List Ref}

section Settles

variable (tracks : session.Tracks)
  (settles : session.counter.Settles session.heap session.created refs
    (session.counter.settle session.heap))

include tracks settles

theorem item?_settled (id : Ident) : session.settled.book.item? id =
    if id ∈ refs.map Ref.id then none else session.book.item? id := by
  rw [book, counter_settled tracks.toSound]
  exact settles.items id

theorem heldBy_settled (id : Ident) : session.settled.book.heldBy id = session.book.heldBy id := by
  rw [book, counter_settled tracks.toSound]
  exact settles.holds id

theorem cells_settled (id : Ident) :
    (session.plain.without (refs.map Ref.id)).cells id = session.settled.plain.cells id := by
  have forgets := tracks.named.settled
  have origins : session.settled.origins[id]? =
      if id ∈ refs.map Ref.id then none else session.origins[id]? := by
    rw [forgets.origins, collected_eq settles.toLeaves]
  simp only [Machine.without, cells_plain, item?_settled tracks settles,
    heldBy_settled tracks settles, origins]
  by_cases removed : id ∈ refs.map Ref.id
  · simp only [if_pos removed, Option.map_none]
  · simp only [if_neg removed]
    cases known : session.book.item? id with
    | none => rfl
    | some item =>
      obtain ⟨_, rfl⟩ := tracks.item?_eq_some.mp known
      have kept : session.settled.heap.content? item = session.heap.content? item := by
        rw [tracks.released_settled settles.toLeaves]
        exact Heap.content?_releaseAll fun member => removed (List.mem_map_of_mem member)
      rw [Option.map_some, Option.map_some, kept]

theorem bindings_settled : (session.plain.without (refs.map Ref.id)).bindings = session.settled.bindings := by
  have forgets := tracks.named.settled
  apply Std.ExtTreeMap.ext_getElem?
  intro name
  apply Option.ext
  intro value
  rw [forgets.bindings, collected_eq settles.toLeaves, Machine.without,
    Std.ExtTreeMap.getElem?_filter', Option.filter_eq_some_iff]
  apply and_congr_right
  intro _
  cases value with
  | scalar atom => simp [Value.id?]
  | shared ref => simp [Value.id?, @eq_comm _ ref.id]

/-- A settle deletes the cells of the values that it collects. -/
theorem plain_settled : session.plain.without (refs.map Ref.id) = session.settled.plain := by
  have forgets := tracks.named.settled
  have created : session.settled.created = session.created := congrArg World.created forgets.world
  apply plain_eq
  · exact cells_settled tracks settles
  · have scalars : session.settled.plain.scalars =
        session.settled.book.scalarHolds session.settled.heap session.settled.created [] := rfl
    rw [scalars, book, counter_settled tracks.toSound, heap_settled tracks.toSound, created]
    exact settles.scalars.symm
  · exact bindings_settled tracks settles
  · exact created.symm

theorem known_settled : session.settled.Known where
  entered name ref named := by
    obtain ⟨named, kept⟩ := (tracks.named.settled.bindings name _).mp named
    rw [item?_settled tracks settles, if_neg]
    · exact tracks.entered name ref named
    · intro member
      rw [← collected_eq settles.toLeaves] at member
      exact kept ref.id member rfl
  childless id unknown := by
    have present : ∀ ref ∈ refs, session.heap.holds (.shared ref) := fun ref member =>
      tracks.present (settles.dead ref member).1
    rw [tracks.released_settled settles.toLeaves,
      tracks.counter.ledger.length_container_releaseAll present]
    rw [item?_settled tracks settles] at unknown
    split
    · rfl
    next kept =>
      rw [if_neg kept] at unknown
      exact tracks.childless id unknown

end Settles

end Session

theorem Machine.without_congr {machine : Machine} {ids others : List Ident}
    (same : ∀ id, id ∈ ids ↔ id ∈ others) : machine.without ids = machine.without others := by
  have contains : ids.contains = others.contains := by
    funext id
    rw [Bool.eq_iff_iff, List.contains_iff_mem, List.contains_iff_mem, same]
  simp only [without, same, contains]

namespace Session

variable {session : Session} {line count : Nat} {refs : List Ref}

theorem Tracks.mem_dead (tracks : session.Tracks) {id : Ident} : id ∈ session.plain.dead ↔
    ∃ ref, (ref ∈ session.counter.ledger.tracked ∧
      ¬session.counter.ledger.Live session.heap ref) ∧ ref.id = id := by
  rw [Machine.dead, List.mem_filter, decide_eq_true_iff, tracks.mem_idents_iff]
  constructor
  · rintro ⟨⟨ref, tracked, rfl⟩, dead⟩
    exact ⟨ref, ⟨tracked, fun live => dead ((tracks.live_plain tracked).mpr live)⟩, rfl⟩
  · rintro ⟨ref, ⟨tracked, dead⟩, rfl⟩
    exact ⟨⟨ref, tracked, rfl⟩, fun live => dead ((tracks.live_plain tracked).mp live)⟩

theorem Tracks.dead_perm (tracks : session.Tracks) (covered : session.book.Covered)
    (settles : session.counter.Settles session.heap session.created refs
      (session.counter.settle session.heap)) : session.plain.dead.Perm (refs.map Ref.id) := by
  have nodup := tracks.counter.ledger.nodup_ids settles.nodup fun ref member =>
    tracks.present (settles.dead ref member).1
  apply (List.perm_ext_iff_of_nodup (Machine.nodup_idents.filter _) nodup).mpr
  intro id
  rw [← Machine.dead, tracks.mem_dead, List.mem_map]
  simp only [settles.complete covered]

theorem Tracks.childTotal_le (tracks : session.Tracks) (solvent : 0 ≤ session.plain.scalars) :
    session.heap.childTotal session.counter.ledger.tracked ≤ session.counter.ledger.total := by
  have total := tracks.total_eq
  rw [Heap.childTotal_eq_sum]
  omega

theorem Tracks.names_eq (tracks : session.Tracks) (covered : session.book.Covered)
    (settles : session.counter.Settles session.heap session.created refs
      (session.counter.settle session.heap)) :
    sortNames (session.plain.dead.filterMap fun id => (session.plain.cells id).map (·.name)) =
      sortNames (session.collected.filterMap (session.origins[·]?)) := by
  rw [collected_eq settles.toLeaves]
  apply sortNames_congr
  refine ((tracks.dead_perm covered settles).filterMap _).trans (.of_eq ?_)
  apply List.filterMap_congr
  intro id member
  obtain ⟨ref, removed, rfl⟩ := List.mem_map.mp member
  have tracked := (settles.dead ref removed).1
  obtain ⟨origin, known⟩ := Option.isSome_iff_exists.mp (tracks.known ref tracked)
  simp [cells_plain, tracks.item?_of_tracked tracked, known]

/-- A settle that counts does to the plain heap what it does to the session, and both report the same. -/
theorem Tracks.alike_settled (tracks : session.Tracks) (covered : session.book.Covered)
    (result : (session.counter.settle session.heap).result = .ok count) :
    Alike (fun machine next => machine = (next.1.plain, next.2) ∧ next.1.Known)
      (session.plain.settle session.budget line) (session.settle line).outcome := by
  obtain ⟨refs, settles⟩ := tracks.counter.settles result
  have known := known_settled tracks settles
  have settled : session.settled.Tracks := ⟨tracks.settled result, known⟩
  have deleted : session.plain.without session.plain.dead = session.settled.plain := by
    rw [← plain_settled tracks settles]
    exact Machine.without_congr fun id => (tracks.dead_perm covered settles).mem_iff
  have total : session.settled.plain.total.toNat = count := by
    rw [settled.total_plain, counter_settled tracks.toSound, Int.toNat_natCast]
    exact Except.ok.inj (settles.result.symm.trans result)
  have retained : session.settled.plain.idents.length =
      (session.counter.settle session.heap).counter.stats.retained := by
    rw [settled.length_idents, counter_settled tracks.toSound, settles.retained]
  rw [tracks.settle_of_ok result, Machine.settle, deleted, settled.check_plain,
    counter_settled tracks.toSound, total, retained, tracks.names_eq covered settles]
  cases session.budget.check (session.counter.settle session.heap).counter.ledger with
  | error error => exact rfl
  | ok => exact ⟨rfl, known⟩

/-- Where no scalar has been let go more often than held, every settle counts. -/
theorem Tracks.alike_settle (tracks : session.Tracks) (covered : session.book.Covered)
    (solvent : 0 ≤ session.plain.scalars) :
    Alike (fun machine next => machine = (next.1.plain, next.2) ∧ next.1.Known)
      (session.plain.settle session.budget line) (session.settle line).outcome := by
  obtain ⟨count, result⟩ := tracks.counter.exists_settle (tracks.childTotal_le solvent)
  exact tracks.alike_settled covered result

end Session

end Reclaim
