import Reclaim.Ledger.Basic

/-! The counting operations. A hold is a reference from outside the heap; an edge is a reference
from a container, and is recorded on the child under the slot of its owner. Every reference counts
once in the total. Taking a reference away makes the value pending if no hold is left on it. -/

set_option autoImplicit false

namespace Reclaim

namespace Ledger

def addHolds (ledger : Ledger) (item : Value) (count : Nat) : Except Abort Ledger := do
  let total ← addCount ledger.total count
  match item.ref? with
  | none => return { ledger with total }
  | some ref =>
    let (ledger, slot) := { ledger with total }.track ref
    let held ← addCount (ledger.heldAt slot) count
    let ledger := ledger.update slot fun entry => { entry with held }
    -- The mark goes whatever the count, which may be 0.
    return { ledger with pending := ledger.pending.erase slot }

def removeHold (ledger : Ledger) (item : Value) : Except LedgerError Ledger :=
  match item.ref? with
  | none =>
    if ledger.total = 0 then .error .totalUnderflow
    else .ok { ledger with total := ledger.total - 1 }
  | some ref =>
    match ledger.find? ref.id with
    | none => .error (.holdUnderflow ref.id)
    | some (slot, entry) =>
      if entry.held = 0 then .error (.holdUnderflow ref.id)
      else if ledger.total = 0 then .error .totalUnderflow
      else
        let dropped := { ledger with total := ledger.total - 1 }.update slot fun entry =>
          { entry with held := entry.held - 1 }
        .ok (if entry.held = 1 then dropped.markPending slot else dropped)

def register (ledger : Ledger) (item : Value) : Ledger :=
  match item.ref? with
  | none => ledger
  | some ref =>
    let (ledger, slot) := ledger.track ref
    ledger.markPending slot

def link (ledger : Ledger) (item : Value) (owner : Slot) : Except Abort Ledger := do
  let total ← addCount ledger.total 1
  match item.ref? with
  | none => return { ledger with total }
  | some ref =>
    let (ledger, slot) := { ledger with total }.track ref
    let edges ← addCount (ledger.edgesAt slot owner) 1
    return ledger.update slot fun entry => { entry with owners := entry.owners.insert owner edges }

def addEdge (ledger : Ledger) (item owner : Value) : Except Failure Ledger :=
  match owner.container? with
  | none => .error (.refused (.notContainer owner))
  | some ownerId =>
    let (ledger, ownerSlot) := ledger.trackOwner (.container ownerId)
    (ledger.link item ownerSlot).mapError .aborted

/-- Take one edge off an owner; an owner without edges is forgotten. -/
def Entry.withoutEdge (entry : Entry) (owner : Slot) : Entry :=
  match entry.owners[owner]? with
  | some (edges + 2) => { entry with owners := entry.owners.insert owner (edges + 1) }
  | _ => { entry with owners := entry.owners.erase owner }

def removeEdge (ledger : Ledger) (item owner : Value) : Except LedgerError Ledger :=
  match owner.container? with
  | none => .error (.notContainer owner)
  | some ownerId =>
    match item.ref? with
    | none =>
      if (ledger.slot? ownerId).isNone then .error (.untrackedOwner ownerId)
      else if ledger.total = 0 then .error .totalUnderflow
      else .ok { ledger with total := ledger.total - 1 }
    | some ref =>
      match ledger.slot? ownerId, ledger.find? ref.id with
      | some ownerSlot, some (slot, entry) =>
        if entry.owners[ownerSlot]?.isNone then .error (.missingEdge ref.id ownerId)
        else if ledger.total = 0 then .error .totalUnderflow
        else
          let removed := { ledger with total := ledger.total - 1 }.update slot
            (Entry.withoutEdge · ownerSlot)
          .ok (if entry.held = 0 then removed.markPending slot else removed)
      | _, _ => .error (.missingEdge ref.id ownerId)

end Ledger

end Reclaim
