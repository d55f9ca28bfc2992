import Reclaim.Proofs.Heap.Contents

/-! The release of many values. What is left does not depend on the order, but for the pool, in
which the blocks lie in the order that they came back. -/

set_option autoImplicit false

namespace Reclaim

namespace Heap

variable {heap : Heap} {created : Nat} {owner ref : Ref}

def releaseAll (heap : Heap) (refs : List Ref) : Heap := refs.foldl release heap

theorem children_release : (heap.release ref).children owner =
    if owner = ref then [] else heap.children owner := by
  cases ref with
  | container id =>
    rw [release, children_setContainer, Container.children_clear]
  | buffer id =>
    rw [release]
    simp only [children_setBuffer]
    split
    next here => rw [here]; rfl
    next => cases owner <;> rfl

theorem childCount_release (apart : owner ≠ ref) :
    (heap.release ref).childCount owner = heap.childCount owner := by
  rw [← length_children, ← length_children, children_release, if_neg apart]

theorem children_releaseAll (refs : List Ref) : (heap.releaseAll refs).children owner =
    if owner ∈ refs then [] else heap.children owner := by
  induction refs generalizing heap with
  | nil => simp [releaseAll]
  | cons ref rest ih =>
    have step : heap.releaseAll (ref :: rest) = (heap.release ref).releaseAll rest := rfl
    rw [step, ih, children_release]
    by_cases later : owner ∈ rest
    · rw [if_pos later, if_pos (List.mem_cons_of_mem ref later)]
    · by_cases here : owner = ref <;> simp [later, here]

theorem childCount_releaseAll {refs : List Ref} (kept : ref ∉ refs) :
    (heap.releaseAll refs).childCount ref = heap.childCount ref := by
  rw [← length_children, ← length_children, children_releaseAll, if_neg kept]

theorem holds_release (present : heap.holds (.shared ref)) (value : Value) :
    (heap.release ref).holds value = heap.holds value := by
  cases ref with
  | container id =>
    rw [release, holds_setContainer]
    by_cases here : value = .shared (.container id) <;> simp [here, present]
  | buffer id =>
    rw [release]
    simp only [holds_setBuffer]
    by_cases here : value = .shared (.buffer id)
    · simp [here, present]
    · simp only [here, decide_false, Bool.false_or]
      rfl

theorem Formed.release (formed : heap.Formed created) (present : heap.holds (.shared ref)) :
    (heap.release ref).Formed created := by
  refine formed.congr (holds_release present) fun owner child member => ?_
  rw [children_release] at member
  split at member
  · cases member
  · exact formed.children_held owner child member

theorem holds_releaseAll {refs : List Ref} (present : ∀ ref ∈ refs, heap.holds (.shared ref))
    (value : Value) : (heap.releaseAll refs).holds value = heap.holds value := by
  induction refs generalizing heap with
  | nil => rfl
  | cons ref rest ih =>
    obtain ⟨first, later⟩ := List.forall_mem_cons.mp present
    have same := holds_release first
    exact (ih fun other member => (same _).trans (later other member)).trans (same value)

theorem Formed.releaseAll {refs : List Ref} (formed : heap.Formed created)
    (present : ∀ ref ∈ refs, heap.holds (.shared ref)) : (heap.releaseAll refs).Formed created := by
  induction refs generalizing heap with
  | nil => exact formed
  | cons ref rest ih =>
    obtain ⟨first, later⟩ := List.forall_mem_cons.mp present
    exact ih (formed.release first) fun other member =>
      (holds_release first _).trans (later other member)

structure Same (heap other : Heap) : Prop where
  containers : heap.containers = other.containers
  buffers : heap.buffers = other.buffers

end Heap

def Buffer.drained (buffer : Buffer) : Buffer := (buffer.release {}).1

theorem Buffer.release_fst (buffer : Buffer) (pool : Pool) :
    (buffer.release pool).1 = buffer.drained := by
  unfold drained release
  split <;> rfl

@[simp] theorem Buffer.drained_drained (buffer : Buffer) : buffer.drained.drained = buffer.drained := by
  unfold drained release
  split
  next released => simp only
  next => rfl

namespace Heap

variable {heap other : Heap} {id : Ident} {refs : List Ref}

theorem containers_releaseAll : (heap.releaseAll refs).containers[id]? =
    if .container id ∈ refs then some (heap.container id).clear else heap.containers[id]? := by
  induction refs generalizing heap with
  | nil => simp [releaseAll]
  | cons ref rest ih =>
    have step : heap.releaseAll (ref :: rest) = (heap.release ref).releaseAll rest := rfl
    rw [step, ih]
    cases ref with
    | container first =>
      have read : (heap.release (.container first)).containers[id]? =
          if first = id then some (heap.container first).clear else heap.containers[id]? := by
        simp [release, setContainer, Std.ExtTreeMap.getElem?_insert]
      -- Later releases clear a container that was perhaps cleared now, with the same result.
      have again : ((heap.release (.container first)).container id).clear =
          (heap.container id).clear := by
        rw [release, container_setContainer]
        split
        next here => simp [Container.clear, here]
        next => rfl
      rw [read, again]
      by_cases later : Ref.container id ∈ rest
      · simp [later]
      · by_cases here : first = id
        · simp [here]
        · simp [later, here, Ne.symm here]
    | buffer first => simp [release, setBuffer, Heap.container]

theorem buffers_releaseAll : (heap.releaseAll refs).buffers[id]? =
    if .buffer id ∈ refs then some (heap.buffer id).drained else heap.buffers[id]? := by
  induction refs generalizing heap with
  | nil => simp [releaseAll]
  | cons ref rest ih =>
    have step : heap.releaseAll (ref :: rest) = (heap.release ref).releaseAll rest := rfl
    rw [step, ih]
    cases ref with
    | buffer first =>
      have read : (heap.release (.buffer first)).buffers[id]? =
          if first = id then some (heap.buffer first).drained else heap.buffers[id]? := by
        simp [release, setBuffer, Std.ExtTreeMap.getElem?_insert, Buffer.release_fst]
      have again : ((heap.release (.buffer first)).buffer id).drained =
          (heap.buffer id).drained := by
        rw [release, buffer_setBuffer, Buffer.release_fst]
        split
        next here => rw [Buffer.drained_drained, here]
        next => rfl
      rw [read, again]
      by_cases later : Ref.buffer id ∈ rest
      · simp [later]
      · by_cases here : first = id
        · simp [here]
        · simp [later, here, Ne.symm here]
    | container first => simp [release, setContainer, Heap.buffer]

namespace Same

variable {container : Container} {buffer : Buffer}

theorem pool_eq (same : heap.Same other) : other = { heap with pool := other.pool } := by
  obtain ⟨containers, buffers⟩ := same
  cases other
  cases containers
  cases buffers
  rfl

theorem symm (same : heap.Same other) : other.Same heap := ⟨same.containers.symm, same.buffers.symm⟩

theorem container_eq (same : heap.Same other) (id : Ident) :
    heap.container id = other.container id := by
  rw [Heap.container, Heap.container, same.containers]

theorem buffer_eq (same : heap.Same other) (id : Ident) : heap.buffer id = other.buffer id := by
  rw [Heap.buffer, Heap.buffer, same.buffers]

theorem holds_eq (same : heap.Same other) : heap.holds = other.holds := by
  rw [same.pool_eq]
  rfl

theorem contains_eq (same : heap.Same other) : heap.Contains = other.Contains := by
  rw [same.pool_eq]
  rfl

theorem childCount_eq (same : heap.Same other) : heap.childCount = other.childCount := by
  rw [same.pool_eq]
  rfl

theorem childTotal_eq (same : heap.Same other) : heap.childTotal = other.childTotal :=
  funext fun _ => childTotal_congr fun ref _ => congrFun same.childCount_eq ref

theorem kindName_eq (same : heap.Same other) : heap.kindName = other.kindName := by
  rw [same.pool_eq]
  rfl

theorem setContainer (same : heap.Same other) :
    (heap.setContainer id container).Same (other.setContainer id container) :=
  ⟨congrArg (·.insert id container) same.containers, same.buffers⟩

theorem setBuffer (same : heap.Same other) :
    (heap.setBuffer id buffer).Same (other.setBuffer id buffer) :=
  ⟨same.containers, congrArg (·.insert id buffer) same.buffers⟩

end Same

/-- The order of releases can only be seen in the pool. -/
theorem Same.releaseAll {others : List Ref} (same : heap.Same other)
    (refs_iff : ∀ ref, ref ∈ refs ↔ ref ∈ others) :
    (heap.releaseAll refs).Same (other.releaseAll others) where
  containers := by
    apply Std.ExtTreeMap.ext_getElem?
    intro id
    simp only [containers_releaseAll, refs_iff, Heap.container, same.containers]
  buffers := by
    apply Std.ExtTreeMap.ext_getElem?
    intro id
    simp only [buffers_releaseAll, refs_iff, Heap.buffer, same.buffers]

end Heap

end Reclaim
