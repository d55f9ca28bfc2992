import Reclaim.Proofs.Collect.Settle
import Reclaim.Proofs.Ledger.Shedding

/-! Settles of counters that may disagree with the heap, also those that fail. Whatever a settle has
removed when it ends, it has removed properly: the other values are as before, but nothing is pending. -/

set_option autoImplicit false

namespace Reclaim

structure Removal.Sheds (before : Removal) (more : List (Ref × Nat)) (after : Removal) : Prop where
  ledger : before.ledger.Sheds more after.ledger
  released : after.heap = before.heap.releaseAll (more.map Prod.fst)
  removed : after.removed = before.removed ++ more

theorem Removal.Sheds.trans {before middle after : Removal} {more others : List (Ref × Nat)}
    (first : before.Sheds more middle) (second : middle.Sheds others after) :
    before.Sheds (more ++ others) after where
  ledger := first.ledger.trans second.ledger
  released := by
    rw [second.released, first.released, List.map_append, Heap.releaseAll, Heap.releaseAll,
      Heap.releaseAll, List.foldl_append]
  removed := by rw [second.removed, first.removed, List.append_assoc]

namespace Sweep

variable {sweep next : Sweep} {component : Component}

theorem resolve_sheds (valid : sweep.removal.ledger.Valid) (nodup : component.Nodup)
    (resolved : sweep.resolve component = .ok next) :
    ∃ more, sweep.removal.Sheds more next.removal := by
  unfold resolve at resolved
  split at resolved
  · cases resolved
    exact ⟨[], .refl valid, rfl, (List.append_nil _).symm⟩
  · obtain ⟨removal, reclaimed, rfl⟩ := ok_of_map resolved
    have cuts := valid.cuts nodup reclaimed
    exact ⟨removal.removed, cuts.sheds valid, cuts.refs ▸ cuts.released, rfl⟩

/-- A walk that ends before all components are resolved has removed those it found dead until then. -/
theorem run_sheds {components : List Component} (valid : sweep.removal.ledger.Valid)
    (nodup : ∀ component ∈ components, component.Nodup) :
    ∃ more, sweep.removal.Sheds more (sweep.run components).1.removal := by
  induction components generalizing sweep with
  | nil => exact ⟨[], .refl valid, rfl, (List.append_nil _).symm⟩
  | cons component rest ih =>
    obtain ⟨here, nodup⟩ := List.forall_mem_cons.mp nodup
    unfold run
    cases resolved : sweep.resolve component with
    | error error => exact ⟨[], .refl valid, rfl, (List.append_nil _).symm⟩
    | ok next =>
      obtain ⟨more, sheds⟩ := resolve_sheds valid here resolved
      obtain ⟨others, later⟩ := ih sheds.ledger.valid nodup
      exact ⟨more ++ others, sheds.trans later⟩

end Sweep

namespace Counter

variable {counter : Counter} {heap : Heap} {ledger : Ledger} {item : Value} {good : Component → Prop}

def Caches (counter : Counter) (good : Component → Prop) : Prop :=
  ∀ components, counter.components = some components → ∀ component ∈ components, good component

theorem Caches.extend (caches : counter.Caches good) (single : ∀ slot, good [slot]) :
    (counter.extend ledger item).Caches good := by
  intro components present component listed
  obtain ⟨before, known, rfl⟩ := Option.map_eq_some_iff.mp present
  rcases List.mem_append.mp listed with old | new
  · exact caches before known component old
  · obtain ⟨slot, _, rfl⟩ := List.mem_map.mp new
    exact single slot

theorem caches_relink : (counter.relink ledger).Caches good := fun _ present => nomatch present

theorem Caches.getD (caches : counter.Caches good)
    (fresh : ∀ component ∈ counter.ledger.ownerGraph.components, good component) :
    ∀ component ∈ counter.components.getD counter.ledger.ownerGraph.components, good component := by
  cases cached : counter.components with
  | none => exact fresh
  | some components => exact caches components cached

theorem Caches.settleByComponents (caches : counter.Caches good)
    (fresh : ∀ component ∈ counter.ledger.ownerGraph.components, good component) :
    (counter.settleByComponents heap).counter.Caches good := by
  unfold Counter.settleByComponents
  simp only
  split
  next => exact fun _ present => nomatch present
  next sweep ended =>
    rintro _ ⟨⟩ component kept
    have last := congrArg (·.1.kept) ended
    rw [← show _ = sweep.kept from last] at kept
    have listed := (Sweep.mem_of_kept _ kept).resolve_left List.not_mem_nil
    exact caches.getD fresh component listed

/-- A settle keeps components that were cached, or caches some of those it has just computed. -/
theorem Caches.settle (caches : counter.Caches good)
    (fresh : ∀ graph : Digraph, ∀ component ∈ graph.components, good component) :
    (counter.settle heap).counter.Caches good := by
  unfold Counter.settle
  split
  next =>
    simp only
    split
    next =>
      unfold settleByMarking
      split <;> exact caches
    next =>
      have cleared : counter.cleared.Caches good := caches
      exact cleared.settleByComponents (fresh _)
  next => exact caches

/-- What a settle has removed when it ends, and what is left of the ledger and the heap. -/
structure Sheds (counter : Counter) (heap : Heap) (settlement : Settlement) : Prop where
  ledger : counter.ledger.Sheds settlement.removed settlement.counter.ledger
  released : settlement.heap = heap.releaseAll (settlement.removed.map Prod.fst)

theorem nodup_components {graph : Digraph} : ∀ component ∈ graph.components, component.Nodup :=
  fun _ => graph.decomposition_components.nodup_component

theorem settleByMarking_sheds (valid : counter.ledger.Valid) :
    counter.Sheds heap (counter.settleByMarking heap) := by
  unfold settleByMarking
  cases reclaimed : counter.ledger.reclaim heap (counter.ledger.dead heap) with
  | error error => exact ⟨.refl valid, rfl⟩
  | ok removal =>
    have cuts := valid.cuts Digraph.nodup_unreached reclaimed
    exact ⟨cuts.sheds valid, cuts.refs ▸ cuts.released⟩

theorem settleByComponents_sheds (valid : counter.ledger.Valid) (caches : counter.Caches List.Nodup) :
    counter.Sheds heap (counter.settleByComponents heap) := by
  let start : Sweep := { removal := { ledger := counter.ledger, heap } }
  obtain ⟨more, ledger, released, removed⟩ := start.run_sheds valid (caches.getD nodup_components)
  have removed : _ = more := removed.trans (List.nil_append more)
  unfold settleByComponents
  simp only
  split
  next sweep error ended =>
    have last : (start.run _).1 = sweep := congrArg Prod.fst ended
    rw [last] at ledger released removed
    subst removed
    exact ⟨ledger, released⟩
  next sweep ended =>
    have last : (start.run _).1 = sweep := congrArg Prod.fst ended
    rw [last] at ledger released removed
    subst removed
    exact ⟨ledger, released⟩

theorem pass_sheds (valid : counter.ledger.Valid) (caches : counter.Caches List.Nodup)
    (passes : counter.ledger.hasPending || counter.eager) :
    counter.cleared.Sheds heap (counter.settle heap) := by
  have idle : counter.cleared.ledger.Valid := valid.unmark fun _ member => nomatch member
  unfold Counter.settle
  rw [if_pos passes]
  simp only
  split
  next => exact settleByMarking_sheds idle
  next =>
    have caches : counter.cleared.Caches List.Nodup := caches
    exact settleByComponents_sheds idle caches

theorem settle_sheds (valid : counter.ledger.Valid) (caches : counter.Caches List.Nodup) :
    counter.Sheds heap (counter.settle heap) := by
  by_cases passes : counter.ledger.hasPending || counter.eager
  · have pass : counter.cleared.Sheds heap _ := pass_sheds valid caches passes
    have cleared : counter.ledger.Sheds [] counter.cleared.ledger :=
      { Ledger.Sheds.refl valid with
        valid := valid.unmark fun _ member => nomatch member
        pending := fun _ member => nomatch member }
    exact ⟨cleared.trans pass.ledger, pass.released⟩
  · rw [skip_of_idle passes]
    exact ⟨.refl valid, rfl⟩

/-- Whatever the answer to a settle, nothing is left to examine. -/
theorem pending_settle (valid : counter.ledger.Valid) (caches : counter.Caches List.Nodup) :
    (counter.settle heap).counter.ledger.pending = ∅ := by
  by_cases passes : counter.ledger.hasPending || counter.eager
  · have pass : counter.cleared.Sheds heap _ := pass_sheds valid caches passes
    apply Std.ExtTreeSet.ext_mem
    intro slot
    exact ⟨pass.ledger.pending slot, fun member => nomatch member⟩
  · rw [skip_of_idle passes]
    simp only [Bool.or_eq_true, not_or, Ledger.hasPending, Bool.not_eq_true, Bool.not_eq_false'] at passes
    exact Std.ExtTreeSet.isEmpty_iff.mp passes.1

theorem passes_of_error {error : LedgerError} (failed : (counter.settle heap).result = .error error) :
    counter.ledger.hasPending || counter.eager := by
  refine Classical.byContradiction fun idle => ?_
  rw [skip_of_idle idle] at failed
  cases failed

theorem settleByMarking_error {error : LedgerError}
    (failed : (counter.settleByMarking heap).result = .error error) :
    (counter.settleByMarking heap).removed = [] := by
  unfold settleByMarking at failed ⊢
  cases reclaimed : counter.ledger.reclaim heap (counter.ledger.dead heap) with
  | error error => rfl
  | ok removal =>
    rw [reclaimed] at failed
    cases failed

theorem removed_of_marking {error : LedgerError} (marking : counter.strategy = .markSweep)
    (failed : (counter.settle heap).result = .error error) : (counter.settle heap).removed = [] := by
  have passes := passes_of_error failed
  unfold Counter.settle at failed ⊢
  rw [if_pos passes] at failed ⊢
  simp only [marking] at failed ⊢
  exact settleByMarking_error failed

end Counter

end Reclaim
