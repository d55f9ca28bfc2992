import Reclaim.Heap.Basic
import Reclaim.Proofs.Arena.Checked
import Reclaim.Proofs.Maps

/-! The blocks of buffers. The pool counts what it has lent, and a block that is given back is taken off
that count, so the count has to cover the blocks that buffers have not given back yet. -/

set_option autoImplicit false

namespace Reclaim

section Counted

variable {α β : Type} [Ord α] [Std.TransOrd α] [Std.LawfulEqOrd α] {map : Std.ExtTreeMap α β compare}
  {key : α} {value : β} {counts : β → Bool}

theorem countP_insert : (map.insert key value).toList.countP (counts ·.2) +
      (if (map[key]?).any counts then 1 else 0) =
    map.toList.countP (counts ·.2) + if counts value then 1 else 0 := by
  have others : (map.insert key value).erase key = map.erase key := by
    apply Std.ExtTreeMap.ext_getElem?
    intro other
    simp only [Std.ExtTreeMap.getElem?_erase, Std.ExtTreeMap.getElem?_insert]
    split <;> rfl
  have written : (map.insert key value)[key]? = some value := Std.ExtTreeMap.getElem?_insert_self
  rw [(toList_perm_erase written).countP_eq, others, List.countP_cons]
  cases found : map[key]? with
  | some old =>
    rw [(toList_perm_erase found).countP_eq, List.countP_cons, Option.any_some]
    exact Nat.add_right_comm _ _ _
  | none =>
    have absent : map.erase key = map := by
      apply Std.ExtTreeMap.ext_getElem?
      intro other
      rw [Std.ExtTreeMap.getElem?_erase]
      split
      next here => rw [← Std.compare_eq_iff_eq.mp here, found]
      next => rfl
    rw [absent, Option.any_none]
    rfl

end Counted

def Pool.lend (pool : Pool) (size : Nat) : Checked (Block × Pool) := do
  let rented ← addUp pool.rented 1
  if size ≤ maxCapacity then
    return ((pool.free.headD .empty).clear.resize size, { rented, free := pool.free.tail })
  else .error (.aborted .capacityOverflow)

def Pool.giveBack (pool : Pool) (block : Block) : Checked Pool := do
  let rented ← takeOff pool.rented 1
  return { rented, free := block :: pool.free }

def Buffer.giveUp (buffer : Buffer) (pool : Pool) : Checked (Buffer × Pool) :=
  if buffer.released then
    return (buffer, pool)
  else do
    let pool ← (if buffer.pooled then pool.giveBack buffer.block else pure pool)
    return ({ buffer with block := .empty, released := true }, pool)

def Buffer.borrows (buffer : Buffer) : Bool := buffer.pooled && !buffer.released

namespace Heap

def allocate (heap : Heap) (id : Ident) (size : Nat) : Checked Heap :=
  if size ≤ maxCapacity then
    return heap.setBuffer id { block := Block.empty.resize size, pooled := false }
  else .error (.aborted .capacityOverflow)

def borrow (heap : Heap) (id : Ident) (size : Nat) : Checked Heap := do
  let (block, pool) ← heap.pool.lend size
  return { heap with pool }.setBuffer id { block, pooled := true }

def letGo (heap : Heap) : Ref → Checked Heap
  | .container id => return heap.setContainer id (heap.container id).clear
  | .buffer id => do
    let (buffer, pool) ← (heap.buffer id).giveUp heap.pool
    return { heap with pool }.setBuffer id buffer

def borrowed (heap : Heap) : Nat := heap.buffers.toList.countP (·.2.borrows)

def Covers (heap : Heap) : Prop := heap.borrowed ≤ heap.pool.rented

variable {heap next : Heap} {id : Ident} {buffer : Buffer} {few : Prop} {size : Nat}

theorem covers_empty : ({} : Heap).Covers := Nat.le_refl 0

theorem borrowed_setBuffer (heap : Heap) (id : Ident) (buffer : Buffer) :
    (heap.setBuffer id buffer).borrowed + (if (heap.buffer id).borrows then 1 else 0) =
      heap.borrowed + if buffer.borrows then 1 else 0 := by
  -- A buffer that is not there reads as one without a block.
  have read : (heap.buffer id).borrows = (heap.buffers[id]?).any Buffer.borrows := by
    rw [Heap.buffer, Std.ExtTreeMap.getD_eq_getD_getElem?]
    cases heap.buffers[id]? <;> rfl
  rw [read]
  exact countP_insert

theorem Covers.setBuffer (covers : heap.Covers) (same : buffer.borrows = (heap.buffer id).borrows) :
    (heap.setBuffer id buffer).Covers := by
  have changed := borrowed_setBuffer heap id buffer
  rw [same] at changed
  exact Nat.le_trans (Nat.le_of_eq (Nat.add_right_cancel changed)) covers

theorem safe_allocate (covers : heap.Covers) (id : Ident) (size : Nat) :
    Safe few (fun next => heap.newBuffer id size = .ok next ∧ next.Covers) (heap.allocate id size) := by
  unfold allocate newBuffer
  split
  next =>
    refine ⟨rfl, ?_⟩
    have changed := borrowed_setBuffer heap id { block := Block.empty.resize size, pooled := false }
    exact Nat.le_trans (Nat.le.intro changed) covers
  next => exact trivial

theorem safe_borrow (covers : heap.Covers) (id : Ident) (size : Nat) :
    Safe few (fun next => heap.rentBuffer id size = .ok next ∧ next.Covers) (heap.borrow id size) := by
  have lent : Safe few (fun (block, pool) => size ≤ maxCapacity ∧ (block, pool) = heap.pool.rent size)
      (heap.pool.lend size) := by
    unfold Pool.lend
    refine (safe_addUp heap.pool.rented 1).bind fun rented added => ?_
    obtain ⟨rfl, _⟩ := addCount_eq_ok_iff.mp added
    split
    next fits => exact ⟨fits, rfl⟩
    next => exact trivial
  refine lent.bind ?_
  rintro ⟨block, pool⟩ ⟨fits, same⟩
  obtain ⟨rfl, rfl⟩ := Prod.mk.inj same
  refine ⟨by rw [rentBuffer, if_pos fits]; rfl, ?_⟩
  have changed := borrowed_setBuffer heap id { block := (heap.pool.rent size).1, pooled := true }
  exact Nat.le_trans (Nat.le.intro changed) (Nat.succ_le_succ covers)

theorem Covers.rented_pos (covers : heap.Covers) (borrows : (heap.buffer id).borrows) :
    0 < heap.pool.rented := by
  have without := borrowed_setBuffer heap id { block := .empty, pooled := false }
  rw [if_pos borrows] at without
  exact Nat.lt_of_lt_of_le (Nat.lt_of_lt_of_eq (Nat.succ_pos _) without) covers

theorem safe_giveUp {pool : Pool} (covered : buffer.borrows → 0 < pool.rented) :
    Safe few (· = buffer.release pool) (buffer.giveUp pool) := by
  unfold Buffer.giveUp Buffer.release
  by_cases released : buffer.released = true
  · rw [if_pos released, if_pos released]
    exact rfl
  rw [if_neg released, if_neg released]
  by_cases pooled : buffer.pooled = true
  · rw [if_pos pooled, if_pos pooled]
    have back : Safe few (· = pool.takeBack buffer.block) (pool.giveBack buffer.block) := by
      refine (safe_takeOff (covered (by simp [Buffer.borrows, pooled, released]))).bind ?_
      rintro _ rfl
      exact rfl
    refine back.bind ?_
    rintro _ rfl
    exact rfl
  · rw [if_neg pooled, if_neg pooled]
    exact rfl

theorem Covers.release (covers : heap.Covers) (ref : Ref) : (heap.release ref).Covers := by
  cases ref with
  | container id => exact covers
  | buffer id =>
    have changed := borrowed_setBuffer heap id ((heap.buffer id).release heap.pool).1
    show (heap.setBuffer id ((heap.buffer id).release heap.pool).1).borrowed ≤
      ((heap.buffer id).release heap.pool).2.rented
    generalize heap.buffer id = buffer at changed ⊢
    have covers : heap.borrowed ≤ heap.pool.rented := covers
    rcases buffer with ⟨block, pooled, released⟩
    -- Only a rented buffer that is not released changes the count, by one on either side.
    cases pooled <;> cases released <;>
      simp [Buffer.release, Buffer.borrows, Pool.takeBack] at changed ⊢ <;> omega

theorem safe_letGo (covers : heap.Covers) (ref : Ref) :
    Safe few (fun next => next = heap.release ref ∧ next.Covers) (heap.letGo ref) := by
  cases ref with
  | container id => exact ⟨rfl, covers⟩
  | buffer id =>
    refine (safe_giveUp covers.rented_pos).bind ?_
    rintro _ rfl
    exact ⟨rfl, covers.release (.buffer id)⟩

end Heap

end Reclaim
