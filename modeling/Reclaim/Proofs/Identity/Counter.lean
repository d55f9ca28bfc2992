import Reclaim.Collect.Counter
import Reclaim.Proofs.Identity.Ledger

/-! Counters under other identities. The cache of components is made of slots, so it stays the same. -/

set_option autoImplicit false

namespace Reclaim

namespace Counter

variable {move : Ident → Ident} {known : Ref → Prop} {counter other : Counter} {next next' : Ledger}
  {item : Value} {count : Nat}

structure Renames (move : Ident → Ident) (known : Ref → Prop) (counter other : Counter) : Prop where
  strategy : other.strategy = counter.strategy
  eager : other.eager = counter.eager
  ledger : counter.ledger.Renames move known other.ledger
  components : other.components = counter.components
  stats : other.stats = counter.stats

namespace Renames

variable (renames : counter.Renames move known other)

include renames

theorem relink (ledgers : next.Renames move known next') :
    (counter.relink next).Renames move known (other.relink next') :=
  { renames with ledger := ledgers, components := rfl }

variable (apart : Apart move known)

include apart

theorem extend (among : item.Among known) (ledgers : next.Renames move known next') :
    (counter.extend next item).Renames move known (other.extend next' (item.rename move)) :=
  { renames with
    ledger := ledgers
    components := by
      unfold Counter.extend
      rw [renames.ledger.isTracked_eq apart among, ledgers.slotOf?_eq apart among, renames.components] }

theorem register (among : item.Among known) :
    (counter.register item).Renames move known (other.register (item.rename move)) :=
  renames.extend apart among (renames.ledger.register apart among)

theorem addHolds (among : item.Among known) : Echoes (Failure.rename move) (Renames move known)
    (counter.addHolds item count) (other.addHolds (item.rename move) count) := by
  have told : Echoes (Failure.rename move) (Ledger.Renames move known)
      ((counter.ledger.addHolds item count).mapError .aborted)
      ((other.ledger.addHolds (item.rename move) count).mapError .aborted) :=
    (renames.ledger.addHolds apart among).mapError fun _ => rfl
  exact told.map fun _ _ => renames.extend apart among

theorem removeHold (among : item.Among known) : Echoes (Failure.rename move) (Renames move known)
    (counter.removeHold item) (other.removeHold (item.rename move)) := by
  have told : Echoes (Failure.rename move) (Ledger.Renames move known)
      ((counter.ledger.removeHold item).mapError .refused)
      ((other.ledger.removeHold (item.rename move)).mapError .refused) :=
    (renames.ledger.removeHold apart among).mapError fun _ => rfl
  exact told.map fun _ _ ledgers => { renames with ledger := ledgers }

variable {id : Ident} (among : item.Among known) (here : known (.container id))

include among here

theorem addEdge : Echoes (Failure.rename move) (Renames move known)
    (counter.addEdge item (.shared (.container id)))
    (other.addEdge (item.rename move) (.shared (.container (move id)))) :=
  (renames.ledger.addEdge apart among here).map fun _ _ => renames.relink

theorem removeEdge : Echoes (Failure.rename move) (Renames move known)
    (counter.removeEdge item (.shared (.container id)))
    (other.removeEdge (item.rename move) (.shared (.container (move id)))) := by
  have told : Echoes (Failure.rename move) (Ledger.Renames move known)
      ((counter.ledger.removeEdge item (.shared (.container id))).mapError .refused)
      ((other.ledger.removeEdge (item.rename move) (.shared (.container (move id)))).mapError .refused) :=
    (renames.ledger.removeEdge apart among here).mapError fun _ => rfl
  exact told.map fun _ _ => renames.relink

end Renames

end Counter

end Reclaim
