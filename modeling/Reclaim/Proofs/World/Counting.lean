import Reclaim.Proofs.Ledger.InPlace
import Reclaim.Proofs.Ledger.Outcomes
import Reclaim.Proofs.World.Unpaired

/-! Counting operations on the counter of any run. Each is refused exactly if the references that it takes away
are not there, or if its owner can own nothing, and then it has written nothing. -/

set_option autoImplicit false

namespace Reclaim

namespace Counter

namespace InPlace

def onLedger {ε : Type} (procedure : EStateM ε Ledger Unit) : EStateM ε Counter Unit := fun counter =>
  match procedure.run counter.ledger with
  | .ok () ledger => .ok () { counter with ledger }
  | .error error ledger => .error error { counter with ledger }

def relinking {ε : Type} (procedure : EStateM ε Ledger Unit) : EStateM ε Counter Unit := do
  onLedger procedure
  modify ({ · with components := none })

def removeHold (item : Value) : EStateM Failure Counter Unit :=
  onLedger ((Ledger.InPlace.removeHold item).adaptExcept .refused)

def addEdge (item owner : Value) : EStateM Failure Counter Unit :=
  relinking (Ledger.InPlace.addEdge item owner)

def removeEdge (item owner : Value) : EStateM Failure Counter Unit :=
  relinking ((Ledger.InPlace.removeEdge item owner).adaptExcept .refused)

section

variable {ε : Type} {kind : ε → Prop} {procedure : EStateM ε Ledger Unit} {counter : Counter}
  {result : Except ε Ledger}

theorem carriesOut_onLedger (carries : CarriesOut kind procedure counter.ledger result) :
    CarriesOut kind (onLedger procedure) counter (result.map ({ counter with ledger := · })) := by
  cases result with
  | ok after =>
    have run : procedure.run counter.ledger = .ok () after := carries
    show (match procedure.run counter.ledger with | .ok () _ => _ | .error _ _ => _) = _
    rw [run]
  | error error =>
    obtain ⟨left, run, same⟩ := carries
    refine ⟨{ counter with ledger := left }, ?_, fun refuses => by rw [same refuses]⟩
    show (match procedure.run counter.ledger with | .ok () _ => _ | .error _ _ => _) = _
    rw [run]

/-- The components are not dropped where the procedure fails. -/
theorem carriesOut_relinking (carries : CarriesOut kind procedure counter.ledger result) :
    CarriesOut kind (relinking procedure) counter (result.map counter.relink) := by
  have ran := carriesOut_onLedger carries
  unfold relinking
  cases result with
  | ok after =>
    show EStateM.run _ counter = _
    rw [EStateM.run_bind, show (onLedger procedure).run counter = .ok () { counter with ledger := after } from ran]
    rfl
  | error error =>
    obtain ⟨left, run, same⟩ := ran
    exact ⟨left, by rw [EStateM.run_bind, run], same⟩

end

end InPlace

variable {counter : Counter} {item owner : Value}

structure HoldRemoval (counter : Counter) (item : Value) : Prop where
  holdUnderflow : ∀ id, counter.removeHold item = .error (.refused (.holdUnderflow id)) ↔
    item.id? = some id ∧ counter.ledger.Unheld item
  totalUnderflow : counter.removeHold item = .error (.refused .totalUnderflow) ↔
    ¬counter.ledger.Unheld item ∧ counter.ledger.total = 0
  succeeds : (∃ next, counter.removeHold item = .ok next) ↔
    ¬counter.ledger.Unheld item ∧ 0 < counter.ledger.total
  effect : ∀ next, counter.removeHold item = .ok next →
    counter.ledger.DropsHold next.ledger item ∧ next = { counter with ledger := next.ledger }
  inPlace : CarriesOut Failure.Refuses (InPlace.removeHold item) counter (counter.removeHold item)

/-- What can become of an edge that is to be added. It is not recorded where a count does not fit. -/
structure EdgeAddition (counter : Counter) (item owner : Value) : Prop where
  refused : ∀ error, counter.addEdge item owner = .error (.refused error) ↔
    owner.canOwn = false ∧ error = .notContainer owner
  succeeds : owner.canOwn = true → counter.ledger.total < maxCount →
    (∀ slot place, counter.ledger.edgesAt slot place < maxCount) → ∃ next, counter.addEdge item owner = .ok next
  effect : ∀ next, counter.addEdge item owner = .ok next →
    counter.ledger.AddsEdge next.ledger item owner ∧ next = counter.relink next.ledger
  inPlace : CarriesOut Failure.Refuses (InPlace.addEdge item owner) counter (counter.addEdge item owner)

structure EdgeRemoval (counter : Counter) (item owner : Value) : Prop where
  notContainer : ∀ value, counter.removeEdge item owner = .error (.refused (.notContainer value)) ↔
    owner.canOwn = false ∧ value = owner
  missingEdge : ∀ child id, counter.removeEdge item owner = .error (.refused (.missingEdge child id)) ↔
    owner.canOwn = true ∧ item.id? = some child ∧ owner.id? = some id ∧ counter.ledger.Unrecorded item owner
  untrackedOwner : ∀ id, counter.removeEdge item owner = .error (.refused (.untrackedOwner id)) ↔
    owner.canOwn = true ∧ item.isShared = false ∧ owner.id? = some id ∧ counter.ledger.isTracked owner = false
  totalUnderflow : counter.removeEdge item owner = .error (.refused .totalUnderflow) ↔
    owner.canOwn = true ∧ ¬counter.ledger.Unrecorded item owner ∧
      (item.isShared = false → counter.ledger.isTracked owner = true) ∧ counter.ledger.total = 0
  succeeds : (∃ next, counter.removeEdge item owner = .ok next) ↔
    owner.canOwn = true ∧ ¬counter.ledger.Unrecorded item owner ∧
      (item.isShared = false → counter.ledger.isTracked owner = true) ∧ 0 < counter.ledger.total
  effect : ∀ next, counter.removeEdge item owner = .ok next →
    counter.ledger.DropsEdge next.ledger item owner ∧ next = counter.relink next.ledger
  inPlace : CarriesOut Failure.Refuses (InPlace.removeEdge item owner) counter (counter.removeEdge item owner)

section

variable {result : Except LedgerError Ledger} {error : LedgerError} {wrap : Ledger → Counter}

theorem map_refused_iff :
    (result.mapError Failure.refused).map wrap = .error (.refused error) ↔ result = .error error := by
  cases result with
  | ok ledger => exact ⟨nofun, nofun⟩
  | error other =>
    simp only [Except.mapError, Except.map, Except.error.injEq, Failure.refused.injEq]

theorem exists_map_ok_iff :
    (∃ next, (result.mapError Failure.refused).map wrap = .ok next) ↔ ∃ ledger, result = .ok ledger := by
  cases result with
  | ok ledger => exact ⟨fun _ => ⟨ledger, rfl⟩, fun _ => ⟨wrap ledger, rfl⟩⟩
  | error other => exact ⟨nofun, nofun⟩

end

theorem holdRemoval (valid : counter.ledger.Valid) (item : Value) : counter.HoldRemoval item where
  holdUnderflow _ := map_refused_iff.trans (Ledger.removeHold_holdUnderflow_iff valid)
  totalUnderflow := map_refused_iff.trans (Ledger.removeHold_totalUnderflow_iff valid)
  succeeds := exists_map_ok_iff.trans (Ledger.exists_removeHold_iff valid)
  effect next removed := by
    obtain ⟨ledger, dropped, rfl⟩ := removeHold_ok removed
    exact ⟨Ledger.dropsHold_of_ok valid dropped, rfl⟩
  inPlace := InPlace.carriesOut_onLedger
    ((Ledger.InPlace.carriesOut_removeHold counter.ledger item).rephrased fun _ _ => trivial)

theorem edgeAddition (valid : counter.ledger.Valid) (item owner : Value) : counter.EdgeAddition item owner where
  refused error := by
    rw [← Ledger.addEdge_refused_iff]
    constructor
    · exact error_of_map
    · intro failed
      rw [addEdge, failed]
      rfl
  succeeds owns fits fit := by
    obtain ⟨ledger, added⟩ := Ledger.exists_addEdge valid owns fits fit
    exact ⟨counter.relink ledger, by rw [addEdge, added]; rfl⟩
  effect next added := by
    obtain ⟨ledger, recorded, rfl⟩ := addEdge_ok added
    exact ⟨Ledger.addsEdge_of_ok valid recorded, rfl⟩
  inPlace := InPlace.carriesOut_relinking (Ledger.InPlace.carriesOut_addEdge counter.ledger item owner)

theorem edgeRemoval (valid : counter.ledger.Valid) (item owner : Value) : counter.EdgeRemoval item owner where
  notContainer _ := map_refused_iff.trans (Ledger.removeEdge_notContainer_iff valid)
  missingEdge _ _ := map_refused_iff.trans (Ledger.removeEdge_missingEdge_iff valid)
  untrackedOwner _ := map_refused_iff.trans (Ledger.removeEdge_untrackedOwner_iff valid)
  totalUnderflow := map_refused_iff.trans (Ledger.removeEdge_totalUnderflow_iff valid)
  succeeds := exists_map_ok_iff.trans (Ledger.exists_removeEdge_iff valid)
  effect next removed := by
    obtain ⟨ledger, dropped, rfl⟩ := removeEdge_ok removed
    exact ⟨Ledger.dropsEdge_of_ok valid dropped, rfl⟩
  inPlace := InPlace.carriesOut_relinking
    ((Ledger.InPlace.carriesOut_removeEdge counter.ledger item owner).rephrased fun _ _ => trivial)

end Counter

namespace World

/-- After any calls a counting operation is refused exactly for what is wrong with its arguments, changes nothing
then, and moves the total and one count by one where it succeeds. -/
theorem counting_after (settings : Settings) (listener : Listener) (calls : List Call) (item owner : Value) :
    ((settings.world listener).after calls).counter.HoldRemoval item ∧
      ((settings.world listener).after calls).counter.EdgeAddition item owner ∧
      ((settings.world listener).after calls).counter.EdgeRemoval item owner := by
  have valid := (orderly_after settings listener calls).valid
  exact ⟨Counter.holdRemoval valid item, Counter.edgeAddition valid item owner, Counter.edgeRemoval valid item owner⟩

end World

end Reclaim
