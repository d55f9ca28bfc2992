import Reclaim.Proofs.Heap.Lending
import Reclaim.Proofs.World.Presence

/-! The accounts of the pool, in runs of any calls. A buffer that comes from elsewhere, be it from another
pool, is one that this pool has not lent. -/

set_option autoImplicit false

namespace Reclaim

namespace Heap

variable {heap next : Heap} {rentals : List Ident} {collections : List Ref} {blocks size : Nat} {id : Ident}
  {buffer : Buffer}

structure Quiet (heap next : Heap) : Prop where
  pool : next.pool = heap.pool
  pooled : ∀ id, (next.buffer id).pooled = (heap.buffer id).pooled
  released : ∀ id, (next.buffer id).released = (heap.buffer id).released

theorem Quiet.refl : heap.Quiet heap := ⟨rfl, fun _ => rfl, fun _ => rfl⟩

theorem quiet_setContainer {container : Container} : heap.Quiet (heap.setContainer id container) :=
  ⟨rfl, fun _ => rfl, fun _ => rfl⟩

theorem quiet_setBuffer (pooled : buffer.pooled = (heap.buffer id).pooled)
    (released : buffer.released = (heap.buffer id).released) : heap.Quiet (heap.setBuffer id buffer) where
  pool := rfl
  pooled other := by
    rw [buffer_setBuffer]
    split
    next here => exact here ▸ pooled
    next => rfl
  released other := by
    rw [buffer_setBuffer]
    split
    next here => exact here ▸ released
    next => rfl

theorem Lends.quiet (lends : heap.Lends rentals collections blocks) (quiet : heap.Quiet next) :
    next.Lends rentals collections blocks where
  nodup := lends.nodup
  pooled_iff id := by rw [quiet.pooled, lends.pooled_iff]
  released_iff id rented := by rw [quiet.released, lends.released_iff id rented]
  rented := by simp only [quiet.pool, quiet.released, lends.rented]
  made := quiet.pool ▸ lends.made

theorem buffer_of_not_holds (absent : ¬ heap.holds (.shared (.buffer id))) :
    heap.buffer id = ⟨.empty, false, false⟩ := by
  have none : heap.buffers[id]? = none := by simpa [holds] using absent
  rw [Heap.buffer, Std.ExtTreeMap.getD_eq_getD_getElem?, none]
  rfl

theorem Lends.rent (lends : heap.Lends rentals collections blocks)
    (absent : ¬ heap.holds (.shared (.buffer id))) (uncollected : .buffer id ∉ collections) (size : Nat) :
    ({ heap with pool := (heap.pool.rent size).2 }.setBuffer id
        { block := (heap.pool.rent size).1, pooled := true }).Lends
      (rentals ++ [id]) collections (blocks + if heap.pool.free.isEmpty then 1 else 0) := by
  -- What has been rented exists, and nothing exists under this identity.
  have unrented : id ∉ rentals := fun rented => by
    have pooled := (lends.pooled_iff id).mpr rented
    rw [buffer_of_not_holds absent] at pooled
    cases pooled
  have elsewhere (other : Ident) (rented : other ∈ rentals) : ¬ id = other := fun here =>
    unrented (here ▸ rented)
  have read := buffer_setBuffer { heap with pool := (heap.pool.rent size).2 } id
  constructor
  · exact List.nodup_append.mpr ⟨lends.nodup, List.nodup_singleton id, fun other rented new listed =>
      (List.mem_singleton.mp listed) ▸ Ne.symm (elsewhere other rented)⟩
  · intro other
    rw [read, List.mem_append, List.mem_singleton, ← lends.pooled_iff]
    split
    next here => simp [here]
    next apart => exact (or_iff_left (Ne.symm apart)).symm
  · intro other rented
    rw [read]
    obtain rented | new := List.mem_append.mp rented
    · rw [if_neg (elsewhere other rented)]
      exact lends.released_iff other rented
    · obtain rfl := List.mem_singleton.mp new
      simp [uncollected]
  · show heap.pool.rented + 1 = _
    rw [List.countP_append, List.countP_singleton, read, if_pos rfl, lends.rented]
    congr 1
    exact List.countP_congr fun other rented => by
      rw [read, if_neg (elsewhere other rented)]
      rfl
  · show heap.pool.rented + 1 + heap.pool.free.tail.length = _
    rw [← lends.made, Pool.available]
    cases heap.pool.free with
    | nil => rfl
    | cons block free =>
      simp only [List.tail_cons, List.length_cons, List.isEmpty_cons]
      exact Nat.add_right_comm _ 1 _

end Heap

namespace World

variable {α : Type} {world : World} {call : Call} {size : Nat}

def gather (read : World → Call → List α) (world : World) : List Call → List α
  | [] => []
  | call :: rest => read world call ++ (world.perform call).1.gather read rest

def rents (world : World) (call : Call) : List Ident :=
  match call, (world.perform call).2 with
  | .rentBuffer _, .ok _ => [world.created]
  | _, _ => []

def mints (world : World) (call : Call) : List Ident :=
  if world.heap.pool.free.isEmpty then world.rents call else []

/-- The values that a call collects. A settle that fails may have collected some. -/
def collects (world : World) : Call → List Ref
  | .settle => (world.counter.settle world.heap).removed.map Prod.fst
  | _ => []

theorem rents_of_unrented (unrented : ∀ size, call ≠ .rentBuffer size) : world.rents call = [] := by
  unfold rents
  split
  next size _ _ => exact absurd rfl (unrented size)
  next => rfl

theorem collects_of_busy (busy : call ≠ .settle) : world.collects call = [] := by
  cases call with
  | settle => exact absurd rfl busy
  | _ => rfl

theorem perform_rentBuffer (fits : size ≤ maxCapacity) : world.perform (.rentBuffer size) =
    world.make .buffer ({ world.heap with pool := (world.heap.pool.rent size).2 }.setBuffer world.created
      { block := (world.heap.pool.rent size).1, pooled := true }) := by
  unfold perform
  simp [Call.values, World.answer, Heap.rentBuffer, fits]

theorem rents_rentBuffer (fits : size ≤ maxCapacity) :
    world.rents (.rentBuffer size) = [world.created] := by
  unfold rents
  rw [perform_rentBuffer fits]
  rfl

theorem refuses_rentBuffer (world : World) (exceeds : ¬ size ≤ maxCapacity) :
    (world.perform (.rentBuffer size)).1 = world ∧ world.rents (.rentBuffer size) = [] := by
  have refused : world.perform (.rentBuffer size) = (world, .error (.failed (.aborted .capacityOverflow))) := by
    unfold perform
    simp [Call.values, World.answer, Heap.rentBuffer, exceeds]
  unfold rents
  rw [refused]
  exact ⟨rfl, rfl⟩

theorem quiet_perform (populated : world.Populated) (busy : call ≠ .settle)
    (unrented : ∀ size, call ≠ .rentBuffer size) : world.heap.Quiet (world.perform call).1.heap := by
  unfold perform
  split
  next =>
    cases call with
    | settle => exact absurd rfl busy
    | rentBuffer size => exact absurd rfl (unrented size)
    | register _ | check | listen _ | get _ _ | lookup _ _ => exact .refl
    | addHolds _ _ | removeHold _ | addEdge _ _ | removeEdge _ _ =>
      simp only [World.answer, count]
      split <;> exact .refl
    | newContainer _ | clear _ => exact Heap.quiet_setContainer
    | newBuffer size =>
      simp only [World.answer, Heap.newBuffer]
      by_cases fits : size ≤ maxCapacity
      -- It takes the place of a buffer that reads as never rented and never released.
      · simp only [if_pos fits]
        have absent := Heap.buffer_of_not_holds (fun held =>
          Nat.lt_irrefl _ (populated.early (.buffer world.created) held))
        exact Heap.quiet_setBuffer (by rw [absent]) (by rw [absent])
      · simp only [if_neg fits]
        exact .refl
    | push _ _ | insert _ _ _ =>
      simp only [World.answer]
      split
      · exact Heap.quiet_setContainer
      · exact .refl
    | set _ _ _ | remove _ _ | removeKey _ _ =>
      simp only [World.answer, exchange]
      split
      · exact Heap.quiet_setContainer
      · exact .refl
    | modify id change => exact Heap.quiet_setBuffer rfl rfl
  next => exact .refl

structure Lending (world : World) (rentals : List Ident) (collections : List Ref) (blocks : Nat) : Prop where
  orderly : world.counter.Orderly
  populated : world.Populated
  collected : ∀ ref ∈ collections, world.heap.holds (.shared ref)
  lends : world.heap.Lends rentals collections blocks

variable {rentals : List Ident} {collections : List Ref} {blocks : Nat}

theorem Lending.holds_collects (lending : world.Lending rentals collections blocks) :
    ∀ ref ∈ world.collects call, world.heap.holds (.shared ref) := by
  intro ref collected
  cases call with
  | settle =>
    have sheds : world.counter.Sheds world.heap _ :=
      Counter.settle_sheds lending.orderly.valid lending.orderly.nodup
    obtain ⟨slot, entry, found, rfl⟩ := Ledger.mem_tracked.mp (sheds.ledger.included ref collected)
    exact lending.populated.present slot entry found
  | _ => cases collected

theorem Lending.heap_settle (lending : world.Lending rentals collections blocks) :
    (world.perform .settle).1.heap = world.heap.releaseAll (world.collects .settle) :=
  (Counter.settle_sheds lending.orderly.valid lending.orderly.nodup : world.counter.Sheds world.heap _).released

theorem Lending.fresh (lending : world.Lending rentals collections blocks) :
    ¬ world.heap.holds (.shared (.buffer world.created)) := fun held =>
  Nat.lt_irrefl _ (lending.populated.early (.buffer world.created) held)

theorem Lending.perform (lending : world.Lending rentals collections blocks) (call : Call) :
    (world.perform call).1.Lending (rentals ++ world.rents call) (collections ++ world.collects call)
      (blocks + (world.mints call).length) where
  orderly := orderly_perform lending.orderly call
  populated := lending.populated.perform lending.orderly call
  collected ref member := lending.populated.holds_perform lending.orderly call <| by
    obtain before | now := List.mem_append.mp member
    · exact lending.collected ref before
    · exact lending.holds_collects ref now
  lends := by
    by_cases settles : call = .settle
    · subst settles
      have none : world.rents .settle = [] := rents_of_unrented (by simp)
      rw [mints, none, lending.heap_settle]
      simpa using lending.lends.releaseAll (world.collects .settle)
    rw [collects_of_busy settles, List.append_nil]
    by_cases rents : ∃ size, call = .rentBuffer size
    · obtain ⟨size, rfl⟩ := rents
      by_cases fits : size ≤ maxCapacity
      · have rent := lending.lends.rent lending.fresh (fun member => lending.fresh
          (lending.collected _ member)) size
        rw [mints, rents_rentBuffer fits, perform_rentBuffer fits]
        -- A new block is made only where none is free.
        split at rent
        next none => rwa [if_pos none]
        next some => rwa [if_neg some]
      · obtain ⟨same, none⟩ := refuses_rentBuffer world fits
        rw [mints, none, same]
        simpa using lending.lends
    · have unrented := not_exists.mp rents
      rw [mints, rents_of_unrented unrented]
      simpa using lending.lends.quiet (quiet_perform lending.populated settles unrented)

theorem Lending.after (lending : world.Lending rentals collections blocks) (calls : List Call) :
    (world.after calls).Lending (rentals ++ world.gather rents calls)
      (collections ++ world.gather collects calls) (blocks + (world.gather mints calls).length) := by
  induction calls generalizing world rentals collections blocks with
  | nil => simpa [gather, World.after] using lending
  | cons call rest ih =>
    have later := ih (lending.perform call)
    simpa [gather, World.after, Nat.add_assoc] using later

example :
    let item : Value := .shared (.buffer 0)
    let calls : List Call := [.rentBuffer 3, .modify 0 fun _ _ => 7, .register item, .settle,
      .register item, .settle, .rentBuffer 5]
    let world := (({} : Settings).world .absent).after calls
    world.heap.pool.rented = 1 ∧ world.heap.pool.available = 0 ∧
      (world.heap.buffer 1).block.toList = List.replicate 5 0 := by
  decide +kernel

end World

end Reclaim
