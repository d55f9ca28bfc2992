import Reclaim.Ledger.Basic

/-! Removal of a batch of dead values. The batch is checked as a whole before anything changes:
each edge from a member to a tracked child outside the batch must be recorded as often as the
member contains the child, and the total must cover the children of all members. -/

set_option autoImplicit false

namespace Reclaim

structure Removal where
  ledger : Ledger
  heap : Heap
  removed : List (Ref × Nat) := []

namespace Ledger

def childSlots (ledger : Ledger) (heap : Heap) (slot : Slot) : List Slot :=
  match ledger.entries[slot]? with
  | none => []
  | some entry => (heap.children entry.item).filterMap ledger.slotOf?

def childCountAt (ledger : Ledger) (heap : Heap) (slot : Slot) : Nat :=
  (ledger.entries[slot]?.map fun entry => heap.childCount entry.item).getD 0

def outgoing (ledger : Ledger) (heap : Heap) (batch : List Slot) (slot : Slot) : List Slot :=
  (ledger.childSlots heap slot).filter (!batch.contains ·)

def heldByBatch (ledger : Ledger) (heap : Heap) (batch : List Slot) : Nat :=
  batch.foldr (fun slot more => ledger.childCountAt heap slot + more) 0

def edgesMatch (ledger : Ledger) (heap : Heap) (batch : List Slot) (slot : Slot) : Bool :=
  let children := ledger.outgoing heap batch slot
  children.all fun child => ledger.edgesAt child slot == children.count child

def detach (ledger : Ledger) (children : List Slot) (owner : Slot) : Ledger :=
  children.foldl (fun ledger child =>
    ledger.update child fun entry => { entry with owners := entry.owners.erase owner }) ledger

def erase (ledger : Ledger) (slot : Slot) (id : Ident) : Ledger :=
  { ledger with
    entries := ledger.entries.erase slot
    free := slot :: ledger.free
    index := ledger.index.erase id
    pending := ledger.pending.erase slot }

end Ledger

def Removal.next (removal : Removal) (slot : Slot) : Removal :=
  match removal.ledger.entries[slot]? with
  | none => removal
  | some entry =>
    { ledger := removal.ledger.erase slot entry.item.id
      heap := removal.heap.release entry.item
      removed := removal.removed ++ [(entry.item, removal.heap.childCount entry.item)] }

def Ledger.reclaim (ledger : Ledger) (heap : Heap) (batch : List Slot) :
    Except LedgerError Removal :=
  let held := ledger.heldByBatch heap batch
  if batch.any (ledger.entries[·]?.isNone) then
    .error (.inconsistent .slotNotTracked)
  else if !batch.all (ledger.edgesMatch heap batch) then
    .error (.inconsistent .edgesDiffer)
  else if ledger.total < held then
    .error .totalUnderflow
  else
    -- All edges are forgotten before the first member is released, since they are found by its contents.
    let detached := batch.foldl (fun detached slot =>
      detached.detach (ledger.outgoing heap batch slot) slot) ledger
    .ok (batch.foldl Removal.next { ledger := { detached with total := ledger.total - held }, heap })

end Reclaim
