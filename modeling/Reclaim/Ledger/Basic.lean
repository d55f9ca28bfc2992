import Reclaim.Graph.Digraph
import Reclaim.Heap.Basic
import Reclaim.Ledger.Error

/-! The ledger: which shared values are tracked, how often each is held from outside and by
which owners, and the total of all references, those to scalars included. A tracked value sits
in a slot until it is collected; a freed slot is taken again, the latest freed first. -/

set_option autoImplicit false

namespace Reclaim

abbrev Slot := Nat

abbrev SlotMap (α : Type) := Std.ExtTreeMap Slot α compare

/-- A tracked value, the holds on it, and the number of edges to it by the slot of their owner. -/
structure Entry where
  item : Ref
  held : Nat := 0
  owners : SlotMap Nat := ∅

/-- The slots in use or free are those below `bound`. A slot is pending when its value may
have died since the last settle. -/
structure Ledger where
  entries : SlotMap Entry := ∅
  bound : Nat := 0
  free : List Slot := []
  index : Std.ExtTreeMap Ident Slot compare := ∅
  pending : NodeSet := ∅
  total : Nat := 0

namespace Ledger

def trackedCount (ledger : Ledger) : Nat := ledger.entries.size

def pendingCount (ledger : Ledger) : Nat := ledger.pending.size

def hasPending (ledger : Ledger) : Bool := !ledger.pending.isEmpty

def slot? (ledger : Ledger) (id : Ident) : Option Slot := ledger.index[id]?

def slotOf? (ledger : Ledger) (value : Value) : Option Slot :=
  value.id?.bind ledger.slot?

def find? (ledger : Ledger) (id : Ident) : Option (Slot × Entry) :=
  (ledger.slot? id).bind fun slot => ledger.entries[slot]?.map fun entry => (slot, entry)

def isTracked (ledger : Ledger) (value : Value) : Bool := (ledger.slotOf? value).isSome

def heldAt (ledger : Ledger) (slot : Slot) : Nat :=
  (ledger.entries[slot]?.map (·.held)).getD 0

def edgesAt (ledger : Ledger) (slot owner : Slot) : Nat :=
  (ledger.entries[slot]?.bind fun entry => entry.owners[owner]?).getD 0

def held (ledger : Ledger) (value : Value) : Nat :=
  ((ledger.slotOf? value).map ledger.heldAt).getD 0

def edges (ledger : Ledger) (item owner : Value) : Nat :=
  match ledger.slotOf? item, ledger.slotOf? owner with
  | some slot, some ownerSlot => ledger.edgesAt slot ownerSlot
  | _, _ => 0

def tracked (ledger : Ledger) : List Ref :=
  ledger.entries.toList.map (·.2.item)

def owners (ledger : Ledger) (item : Ref) : List (Ref × Nat) :=
  (ledger.tracked.map fun owner => (owner, ledger.edges (.shared item) (.shared owner))).filter
    (·.2 > 0)

def roots (ledger : Ledger) : List Slot :=
  (ledger.entries.toList.filter (·.2.held > 0)).map (·.1)

def occupied (ledger : Ledger) : NodeSet := .ofList ledger.entries.keys

def update (ledger : Ledger) (slot : Slot) (change : Entry → Entry) : Ledger :=
  { ledger with entries := ledger.entries.modify slot change }

@[simp] theorem getElem?_update (ledger : Ledger) (slot other : Slot) (change : Entry → Entry) :
    (ledger.update slot change).entries[other]? =
      if slot = other then ledger.entries[other]?.map change else ledger.entries[other]? := by
  simp only [update, Std.ExtTreeMap.getElem?_modify, Std.LawfulEqCmp.compare_eq_iff_eq]
  split
  next same => rw [same]
  next => rfl

def markPending (ledger : Ledger) (slot : Slot) : Ledger :=
  { ledger with pending := ledger.pending.insert slot }

def nextSlot (ledger : Ledger) : Slot := ledger.free.headD ledger.bound

def insert (ledger : Ledger) (ref : Ref) : Ledger :=
  { ledger with
    entries := ledger.entries.insert ledger.nextSlot { item := ref }
    bound := if ledger.free.isEmpty then ledger.bound + 1 else ledger.bound
    free := ledger.free.tail
    index := ledger.index.insert ref.id ledger.nextSlot }

theorem getElem?_insert (ledger : Ledger) (ref : Ref) (other : Slot) :
    (ledger.insert ref).entries[other]? =
      if ledger.nextSlot = other then some { item := ref } else ledger.entries[other]? := by
  simp [insert, Std.ExtTreeMap.getElem?_insert]

theorem slot?_insert (ledger : Ledger) (ref : Ref) (id : Ident) :
    (ledger.insert ref).slot? id =
      if ref.id = id then some ledger.nextSlot else ledger.slot? id := by
  simp [insert, slot?, Std.ExtTreeMap.getElem?_insert]

def track (ledger : Ledger) (ref : Ref) : Ledger × Slot :=
  match ledger.slot? ref.id with
  | some slot => (ledger, slot)
  | none => (ledger.insert ref, ledger.nextSlot)

theorem slot?_track (ledger : Ledger) (ref : Ref) :
    (ledger.track ref).1.slot? ref.id = some (ledger.track ref).2 := by
  unfold track
  cases known : ledger.slot? ref.id with
  | none => simp [slot?_insert]
  | some slot => exact known

/-- The slot of an owner. One that is not tracked yet is tracked from now on, and pending. -/
def trackOwner (ledger : Ledger) (ref : Ref) : Ledger × Slot :=
  match ledger.slot? ref.id with
  | some slot => (ledger, slot)
  | none => ((ledger.insert ref).markPending ledger.nextSlot, ledger.nextSlot)

end Ledger

end Reclaim
