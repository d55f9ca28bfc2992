import Reclaim.Count
import Reclaim.Heap.Value

/-! Buffers and the pool that lends them blocks. A block is known by its length and the byte
at each position, so a large one costs nothing until it is read. -/

set_option autoImplicit false

namespace Reclaim

structure Block where
  size : Nat
  byte : Nat → UInt8

namespace Block

def empty : Block := ⟨0, fun _ => 0⟩

def toList (block : Block) : Bytes :=
  (List.range block.size).map block.byte

def clear (block : Block) : Block := { block with size := 0 }

def resize (block : Block) (size : Nat) : Block where
  size
  byte position := if position < block.size then block.byte position else 0

def modify (change : Nat → UInt8 → UInt8) (block : Block) : Block :=
  { block with byte := fun position => change position (block.byte position) }

end Block

/-- Blocks that were given back wait here, the latest first. -/
structure Pool where
  rented : Nat := 0
  free : List Block := []

namespace Pool

def available (pool : Pool) : Nat := pool.free.length

def rent (pool : Pool) (size : Nat) : Block × Pool :=
  ((pool.free.headD .empty).clear.resize size,
    { rented := pool.rented + 1, free := pool.free.tail })

def takeBack (pool : Pool) (block : Block) : Pool where
  rented := pool.rented - 1
  free := block :: pool.free

end Pool

/-- A released buffer is empty and never gives a block back again. -/
structure Buffer where
  block : Block
  pooled : Bool
  released : Bool := false

namespace Buffer

def length (buffer : Buffer) : Nat := buffer.block.size

/-- Take the bytes away; a rented block goes back to the pool, the first time only. -/
def release (buffer : Buffer) (pool : Pool) : Buffer × Pool :=
  if buffer.released then
    (buffer, pool)
  else
    ({ buffer with block := .empty, released := true },
      if buffer.pooled then pool.takeBack buffer.block else pool)

end Buffer

end Reclaim
