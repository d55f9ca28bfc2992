import Reclaim.Proofs.Ledger.Items
import Reclaim.Proofs.World.Unpaired

/-! What exists, in runs of any calls: identities are given out in order, and no value is tracked that has
not been made. -/

set_option autoImplicit false

namespace Reclaim

namespace Counter

variable {counter next : Counter} {heap : Heap} {call : Call} {known : Ref → Prop}

theorem Hears.within (hears : counter.Hears heap call next) (orderly : counter.Orderly)
    (within : counter.ledger.Within known) (named : ∀ ref, .shared ref ∈ call.values → known ref) :
    next.ledger.Within known := by
  cases hears with
  | register item => exact within.register fun ref same => named ref (by simp [Call.values, same])
  | addHolds added =>
    obtain ⟨ledger, result, rfl⟩ := addHolds_ok added
    exact within.addHolds (fun ref same => named ref (by simp [Call.values, same])) result
  | removeHold removed =>
    obtain ⟨ledger, result, rfl⟩ := removeHold_ok removed
    exact within.removeHold result
  | addEdge added =>
    obtain ⟨ledger, result, rfl⟩ := addEdge_ok added
    exact within.addEdge (fun ref same => named ref (by simp [Call.values, same]))
      (fun ref same => named ref (by simp [Call.values, same])) result
  | removeEdge removed =>
    obtain ⟨ledger, result, rfl⟩ := removeEdge_ok removed
    exact within.removeEdge result
  | settle =>
    intro slot entry found
    have sheds : counter.Sheds heap _ := settle_sheds orderly.valid orderly.nodup
    obtain ⟨before, present, same, _⟩ := sheds.ledger.kept slot entry found
    exact same ▸ within slot before present

end Counter

theorem Heap.Change.of_holds {heap next : Heap} {touched : Option Ref} {ref : Ref}
    (change : heap.Change touched next) (held : next.holds (.shared ref)) :
    heap.holds (.shared ref) ∨ touched = some ref := by
  cases change with
  | none => exact .inl held
  | fill id container =>
    rw [holds_setContainer, Bool.or_eq_true, decide_eq_true_eq] at held
    exact held.symm.imp_right fun same => by cases same; rfl
  | make id block pooled pool | modify id change =>
    rw [holds_setBuffer, Bool.or_eq_true, decide_eq_true_eq] at held
    exact held.symm.imp_right fun same => by cases same; rfl

namespace World

variable {world : World}

structure Populated (world : World) : Prop where
  early : ∀ ref, world.heap.holds (.shared ref) → ref.id < world.created
  present : world.counter.ledger.Within fun ref => world.heap.holds (.shared ref)

theorem Populated.of_removed {ref : Ref} (populated : world.Populated) (orderly : world.counter.Orderly)
    (removed : ref ∈ (world.counter.settle world.heap).removed.map Prod.fst) : world.heap.holds (.shared ref) := by
  have sheds : world.counter.Sheds world.heap _ := Counter.settle_sheds orderly.valid orderly.nodup
  obtain ⟨slot, entry, found, rfl⟩ := Ledger.mem_tracked.mp (sheds.ledger.included ref removed)
  exact populated.present slot entry found

theorem heap_settle (orderly : world.counter.Orderly) : world.settle.1.heap =
    world.heap.releaseAll ((world.counter.settle world.heap).removed.map Prod.fst) :=
  (Counter.settle_sheds orderly.valid orderly.nodup).released

theorem Populated.holds_settle (populated : world.Populated) (orderly : world.counter.Orderly)
    (value : Value) : world.settle.1.heap.holds value = world.heap.holds value := by
  rw [heap_settle orderly]
  exact Heap.holds_releaseAll (fun _ => populated.of_removed orderly) value

theorem Populated.holds_perform (populated : world.Populated) (orderly : world.counter.Orderly)
    (call : Call) {value : Value} (held : world.heap.holds value) :
    (world.perform call).1.heap.holds value := by
  by_cases settles : call = .settle
  · subst settles
    exact (populated.holds_settle orderly value).trans held
  · obtain ⟨_, change⟩ := change_perform world settles
    exact change.holds held

theorem Populated.perform (populated : world.Populated) (orderly : world.counter.Orderly) (call : Call) :
    (world.perform call).1.Populated where
  early ref held := by
    by_cases settles : call = .settle
    · subst settles
      exact populated.early ref ((populated.holds_settle orderly _).symm.trans held)
    · obtain ⟨touched, change, touches⟩ := touches_perform world settles
      have fresh : world.heap.holds (.shared ref) ∨ ref.id = world.created ∧ _ :=
        (change.of_holds held).elim .inl fun here => touches.ref ref here
      obtain earlier | ⟨here, more⟩ := fresh
      · exact Nat.lt_of_lt_of_le (populated.early ref earlier) touches.created
      · exact here ▸ more
  present := by
    have kept : world.counter.ledger.Within fun ref => (world.perform call).1.heap.holds (.shared ref) :=
      fun slot entry found => populated.holds_perform orderly call (populated.present slot entry found)
    by_cases exist : call.values.all world.heap.holds = true
    · obtain ⟨same, _⟩ | ⟨hears, _⟩ := hears_perform world call
      · exact same ▸ kept
      · exact hears.within orderly kept fun ref named =>
          populated.holds_perform orderly call (List.all_eq_true.mp exist _ named)
    · have refused : (world.perform call).1 = world := by
        unfold World.perform
        rw [if_neg exist]
      rw [refused] at kept ⊢
      exact kept

theorem populated_world (settings : Settings) (listener : Listener) :
    (settings.world listener).Populated where
  early ref held := by cases ref <;> cases held
  present slot entry found := by cases found

end World

end Reclaim
