import Reclaim.Heap.Container
import Reclaim.Heap.Buffer

/-! The heap: the contents of every container and buffer by identity, and the pool that
lends blocks to buffers. An identity that holds nothing reads as an empty array. -/

set_option autoImplicit false

namespace Reclaim

structure Heap where
  containers : Std.ExtTreeMap Ident Container compare := ∅
  buffers : Std.ExtTreeMap Ident Buffer compare := ∅
  pool : Pool := {}

namespace Heap

def container (heap : Heap) (id : Ident) : Container :=
  heap.containers.getD id (.empty (.list .array))

def setContainer (heap : Heap) (id : Ident) (container : Container) : Heap :=
  { heap with containers := heap.containers.insert id container }

def buffer (heap : Heap) (id : Ident) : Buffer :=
  heap.buffers.getD id ⟨.empty, false, false⟩

def setBuffer (heap : Heap) (id : Ident) (buffer : Buffer) : Heap :=
  { heap with buffers := heap.buffers.insert id buffer }

@[simp] theorem container_setContainer (heap : Heap) (id other : Ident) (container : Container) :
    (heap.setContainer id container).container other =
      if id = other then container else heap.container other := by
  simp [setContainer, Heap.container, Std.ExtTreeMap.getD_insert]

@[simp] theorem buffer_setBuffer (heap : Heap) (id other : Ident) (buffer : Buffer) :
    (heap.setBuffer id buffer).buffer other =
      if id = other then buffer else heap.buffer other := by
  simp [setBuffer, Heap.buffer, Std.ExtTreeMap.getD_insert]

@[simp] theorem buffer_setContainer (heap : Heap) (id other : Ident) (container : Container) :
    (heap.setContainer id container).buffer other = heap.buffer other := rfl

@[simp] theorem container_setBuffer (heap : Heap) (id other : Ident) (buffer : Buffer) :
    (heap.setBuffer id buffer).container other = heap.container other := rfl

def newContainer (heap : Heap) (id : Ident) (kind : Kind) : Heap :=
  heap.setContainer id (.empty kind)

def newBuffer (heap : Heap) (id : Ident) (size : Nat) : Except Abort Heap :=
  if size ≤ maxCapacity then
    .ok (heap.setBuffer id { block := Block.empty.resize size, pooled := false })
  else
    .error .capacityOverflow

def rentBuffer (heap : Heap) (id : Ident) (size : Nat) : Except Abort Heap :=
  if size ≤ maxCapacity then
    let (block, pool) := heap.pool.rent size
    .ok ({ heap with pool }.setBuffer id { block, pooled := true })
  else
    .error .capacityOverflow

/-- Whether a value has been made; scalars always are. -/
def holds (heap : Heap) : Value → Bool
  | .scalar _ => true
  | .shared (.container id) => heap.containers.contains id
  | .shared (.buffer id) => heap.buffers.contains id

/-- The children of a shared value, once per place that holds them. -/
def children (heap : Heap) : Ref → List Value
  | .container id => (heap.container id).children
  | .buffer _ => []

def childCount (heap : Heap) : Ref → Nat
  | .container id => (heap.container id).length
  | .buffer _ => 0

@[simp] theorem length_children (heap : Heap) (ref : Ref) :
    (heap.children ref).length = heap.childCount ref := by
  cases ref <;> simp [children, childCount]

def release (heap : Heap) : Ref → Heap
  | .container id => heap.setContainer id (heap.container id).clear
  | .buffer id =>
    let (buffer, pool) := (heap.buffer id).release heap.pool
    { heap with pool }.setBuffer id buffer

def kindName (heap : Heap) : Value → String
  | .scalar atom => atom.kindName
  | .shared (.container id) => (heap.container id).kind.name
  | .shared (.buffer _) => "buffer"

def describe (heap : Heap) (label : Ident → String) : Value → String
  | .scalar .null => "Null"
  | .scalar (.boolean value) => s!"Boolean({value})"
  | .scalar (.integer value) => s!"Integer({value})"
  | .scalar (.bytes content) => s!"ByteString({content.length} bytes)"
  | .scalar (.pointer position) => s!"Pointer({position})"
  | .scalar (.interop handle) => s!"InteropInterface({handle})"
  | .shared (.container id) =>
    let container := heap.container id
    s!"{container.kind.name}({identText label id}, {container.length} children)"
  | .shared (.buffer id) => s!"Buffer({identText label id}, {(heap.buffer id).length} bytes)"

end Heap

end Reclaim
