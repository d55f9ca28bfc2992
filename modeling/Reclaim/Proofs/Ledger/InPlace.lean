import Reclaim.Ledger.Counting
import Reclaim.Proofs.Procedures
import Reclaim.Proofs.Results

/-! The counting operations in place: procedures on one ledger that look at it and write to it in turn. Each
comes to the result of its operation, and has written nothing when it is refused. -/

set_option autoImplicit false

namespace Reclaim

/-- An answer to the caller, and not the end of the run. -/
def Failure.Refuses : Failure → Prop
  | .refused _ => True
  | .aborted _ => False

namespace Ledger.InPlace

def dropReference : EStateM LedgerError Ledger Unit :=
  modify fun ledger => { ledger with total := ledger.total - 1 }

def removeHold (item : Value) : EStateM LedgerError Ledger Unit := do
  match item.ref? with
  | none =>
    refuseIf ((← get).total = 0) .totalUnderflow
    dropReference
  | some ref =>
    match (← get).find? ref.id with
    | none => throw (.holdUnderflow ref.id)
    | some (slot, entry) =>
      refuseIf (entry.held = 0) (.holdUnderflow ref.id)
      refuseIf ((← get).total = 0) .totalUnderflow
      modify (·.update slot fun entry => { entry with held := entry.held - 1 })
      if entry.held = 1 then modify (·.markPending slot)
      dropReference

def link (item : Value) (owner : Slot) : EStateM Abort Ledger Unit := do
  let total ← ofExcept (addCount (← get).total 1)
  modify ({ · with total })
  match item.ref? with
  | none => return
  | some ref =>
    let slot ← modifyGet fun ledger => (ledger.track ref).swap
    let edges ← ofExcept (addCount ((← get).edgesAt slot owner) 1)
    modify (·.update slot fun entry => { entry with owners := entry.owners.insert owner edges })

/-- Add an edge from an owner to a child. The owner is tracked before anything is counted. -/
def addEdge (item owner : Value) : EStateM Failure Ledger Unit := do
  match owner.container? with
  | none => throw (.refused (.notContainer owner))
  | some id =>
    let place ← modifyGet fun ledger => (ledger.trackOwner (.container id)).swap
    (link item place).adaptExcept .aborted

def removeEdge (item owner : Value) : EStateM LedgerError Ledger Unit := do
  match owner.container? with
  | none => throw (.notContainer owner)
  | some id =>
    match item.ref? with
    | none =>
      refuseIf ((← get).slot? id).isNone (.untrackedOwner id)
      refuseIf ((← get).total = 0) .totalUnderflow
      dropReference
    | some ref =>
      match (← get).slot? id, (← get).find? ref.id with
      | some place, some (slot, entry) =>
        refuseIf entry.owners[place]?.isNone (.missingEdge ref.id id)
        refuseIf ((← get).total = 0) .totalUnderflow
        modify (·.update slot (Entry.withoutEdge · place))
        if entry.held = 0 then modify (·.markPending slot)
        dropReference
      | _, _ => throw (.missingEdge ref.id id)

variable (ledger : Ledger) (item owner : Value)

theorem carriesOut_removeHold :
    CarriesOut (fun _ => True) (removeHold item) ledger (ledger.removeHold item) := by
  unfold removeHold Ledger.removeHold
  cases item with
  | scalar atom => exact .reads (.checks fun _ => rfl)
  | shared ref =>
    refine .reads ?_
    simp only [Value.ref?_shared]
    cases ledger.find? ref.id with
    | none => exact .fails
    | some found =>
      obtain ⟨slot, entry⟩ := found
      refine .checks fun _ => .reads (.checks fun _ => ?_)
      split <;> rfl

/-- A sum that is no count is found out after other things have been written. -/
theorem carriesOut_link (place : Slot) :
    CarriesOut (fun _ => False) (link item place) ledger (ledger.link item place) := by
  unfold link Ledger.link
  refine .reads (.computes fun total => .writes ?_)
  cases item with
  | scalar atom => exact rfl
  | shared ref => exact .writes (.reads (.computes fun edges => rfl))

theorem carriesOut_addEdge :
    CarriesOut Failure.Refuses (addEdge item owner) ledger (ledger.addEdge item owner) := by
  unfold addEdge Ledger.addEdge
  cases owner.container? with
  | none => exact .fails
  | some id =>
    let tracked := ledger.trackOwner (.container id)
    have linked : CarriesOut (fun _ => False) ((link item tracked.2).adaptExcept Failure.aborted) tracked.1
        ((tracked.1.link item tracked.2).mapError Failure.aborted) :=
      (carriesOut_link tracked.1 item tracked.2).rephrased fun _ never => never
    refine CarriesOut.imp (.writes linked) fun failure failed refuses => ?_
    -- What can still fail is a sum, and that is no refusal.
    obtain ⟨abort, _, rfl⟩ := error_of_mapError failed
    exact refuses

theorem carriesOut_removeEdge :
    CarriesOut (fun _ => True) (removeEdge item owner) ledger (ledger.removeEdge item owner) := by
  unfold removeEdge Ledger.removeEdge
  cases owner.container? with
  | none => exact .fails
  | some id =>
    cases item with
    | scalar atom => exact .reads (.checks fun _ => .reads (.checks fun _ => rfl))
    | shared ref =>
      refine .reads (.reads ?_)
      simp only [Value.ref?_shared]
      cases ledger.slot? id with
      | none => exact .fails
      | some place =>
        cases ledger.find? ref.id with
        | none => exact .fails
        | some located =>
          obtain ⟨slot, entry⟩ := located
          refine .checks fun _ => .reads (.checks fun _ => ?_)
          split <;> rfl

end Ledger.InPlace

end Reclaim
