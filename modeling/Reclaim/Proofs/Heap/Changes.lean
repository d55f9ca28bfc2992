import Reclaim.Proofs.Heap.Release

/-! What changes in the heap, and what does not. Between settles at most one value changes at a time, and a
release takes away what it releases. A released buffer has no bytes, and gets none again. -/

set_option autoImplicit false

namespace Reclaim

namespace Heap

variable {heap next : Heap} {id : Ident} {ref : Ref} {touched : Option Ref} {refs : List Ref}

def SameAt (heap other : Heap) : Ref → Prop
  | .container id => other.containers[id]? = heap.containers[id]?
  | .buffer id => other.buffers[id]? = heap.buffers[id]?

def Vacant (heap : Heap) : Ref → Prop
  | .container id => (heap.container id).children = []
  | .buffer id => (heap.buffer id).released = true ∧ (heap.buffer id).length = 0

def Drained (heap : Heap) : Prop :=
  ∀ id, (heap.buffer id).released = true → (heap.buffer id).length = 0

/-- What becomes of the heap between settles. At most one value changes, and bytes change in place. -/
inductive Change (heap : Heap) : Option Ref → Heap → Prop
  | none : heap.Change none heap
  | fill (id : Ident) (container : Container) :
      heap.Change (some (.container id)) (heap.setContainer id container)
  | make (id : Ident) (block : Block) (pooled : Bool) (pool : Pool) :
      heap.Change (some (.buffer id)) ({ heap with pool }.setBuffer id { block, pooled })
  | modify (id : Ident) (change : Nat → UInt8 → UInt8) : heap.Change (some (.buffer id))
      (heap.setBuffer id { heap.buffer id with block := (heap.buffer id).block.modify change })

theorem Drained.change (drained : heap.Drained) (change : heap.Change touched next) : next.Drained := by
  cases change with
  | none | fill _ _ => exact drained
  | make id block pooled pool =>
    intro other
    rw [buffer_setBuffer]
    split
    · exact nofun
    · exact drained other
  | modify id change =>
    intro other
    rw [buffer_setBuffer]
    split
    · exact drained id
    · exact drained other

theorem Change.holds {value : Value} (change : heap.Change touched next) (held : heap.holds value) :
    next.holds value := by
  cases change with
  | none => exact held
  | fill id container => simp [holds_setContainer, held]
  | make id block pooled pool =>
    have same : Same { heap with pool } heap := ⟨rfl, rfl⟩
    simp [holds_setBuffer, same.holds_eq, held]
  | modify id change => simp [holds_setBuffer, held]

theorem Change.sameAt (change : heap.Change touched next) (apart : touched ≠ some ref) :
    heap.SameAt next ref := by
  cases change with
  | none => cases ref <;> rfl
  | fill id container =>
    cases ref with
    | container other =>
      have elsewhere : id ≠ other := fun same => apart (same ▸ rfl)
      simp [SameAt, setContainer, Std.ExtTreeMap.getElem?_insert, elsewhere]
    | buffer other => rfl
  | make id _ _ _ | modify id _ =>
    cases ref with
    | container other => rfl
    | buffer other =>
      have elsewhere : id ≠ other := fun same => apart (same ▸ rfl)
      simp [SameAt, setBuffer, Std.ExtTreeMap.getElem?_insert, elsewhere]

theorem Change.released (change : heap.Change touched next)
    (released : (next.buffer id).released = true) : (heap.buffer id).released = true := by
  cases change with
  | none | fill _ _ => exact released
  | make other block pooled pool =>
    rw [buffer_setBuffer] at released
    split at released
    · cases released
    · exact released
  | modify other change =>
    rw [buffer_setBuffer] at released
    split at released
    next here => exact here ▸ released
    next => exact released

theorem SameAt.vacant (same : heap.SameAt next ref) (vacant : heap.Vacant ref) : next.Vacant ref := by
  cases ref with
  | container id =>
    have read : next.container id = heap.container id := by
      rw [container, container, Std.ExtTreeMap.getD_eq_getD_getElem?, same,
        Std.ExtTreeMap.getD_eq_getD_getElem?]
    rwa [Vacant, read]
  | buffer id =>
    have read : next.buffer id = heap.buffer id := by
      rw [buffer, buffer, Std.ExtTreeMap.getD_eq_getD_getElem?, same,
        Std.ExtTreeMap.getD_eq_getD_getElem?]
    rwa [Vacant, read]

theorem sameAt_releaseAll (kept : ref ∉ refs) : heap.SameAt (heap.releaseAll refs) ref := by
  cases ref with
  | container id => exact containers_releaseAll.trans (if_neg kept)
  | buffer id => exact buffers_releaseAll.trans (if_neg kept)

theorem buffer_releaseAll : (heap.releaseAll refs).buffer id =
    if .buffer id ∈ refs then (heap.buffer id).drained else heap.buffer id := by
  rw [Heap.buffer, Std.ExtTreeMap.getD_eq_getD_getElem?, buffers_releaseAll]
  split
  · rfl
  · exact Std.ExtTreeMap.getD_eq_getD_getElem?.symm

/-- A buffer is released once. What it has lost by then it does not lose again. -/
theorem Drained.drained (drained : heap.Drained) (id : Ident) :
    (heap.buffer id).drained.released = true ∧ (heap.buffer id).drained.length = 0 := by
  unfold Buffer.drained Buffer.release
  split
  next released => exact ⟨released, drained id released⟩
  next => exact ⟨rfl, rfl⟩

theorem Drained.vacant_releaseAll (drained : heap.Drained) (member : ref ∈ refs) :
    (heap.releaseAll refs).Vacant ref := by
  cases ref with
  | container id =>
    have children : (heap.releaseAll refs).children (.container id) = _ := children_releaseAll refs
    exact children.trans (if_pos member)
  | buffer id =>
    rw [Vacant, buffer_releaseAll, if_pos member]
    exact drained.drained id

theorem Drained.releaseAll (drained : heap.Drained) (refs : List Ref) : (heap.releaseAll refs).Drained := by
  intro id
  rw [buffer_releaseAll]
  split
  · exact fun _ => (drained.drained id).2
  · exact drained id

end Heap

end Reclaim
