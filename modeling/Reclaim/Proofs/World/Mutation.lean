import Reclaim.Proofs.Heap.Order
import Reclaim.Proofs.World.Rentals
import Reclaim.Proofs.World.Stretch

/-! Runs that change one container. Each call stores the child that it offers or leaves the container as it is,
and its answer says which, and names every child that is there no longer. So the answers of a run account for
what the container holds at its end. -/

set_option autoImplicit false

namespace Reclaim

namespace Call

inductive Mutates (id : Ident) : Call → Prop where
  | push (item : Value) : Mutates id (.push id item)
  | set (index : Nat) (item : Value) : Mutates id (.set id index item)
  | remove (index : Nat) : Mutates id (.remove id index)
  | insert (key : Key) (item : Value) : Mutates id (.insert id key item)
  | removeKey (key : Key) : Mutates id (.removeKey id key)
  | clear : Mutates id (.clear id)

def Applies (container : Container) : Call → Prop
  | .push _ _ => container.kind.isList
  | .set _ index _ | .remove _ index => container.kind.isList ∧ index < container.length
  | .insert _ _ _ => container.kind = .map
  | .removeKey _ key => container.kind = .map ∧ (container.lookup? key).isSome
  | .clear _ => True
  | _ => False

def offers : Call → List Value
  | .push _ item | .set _ _ item | .insert _ _ item => [item]
  | _ => []

def displaces (container : Container) : Call → List Value
  | .set _ index _ | .remove _ index => (container.get? index).toList
  | .insert _ key _ | .removeKey _ key => (container.lookup? key).toList
  | .clear _ => container.children
  | _ => []

def stored : Call → Answer → List Value
  | .push _ item, .flag true => [item]
  | .set _ _ item, .value (some _) => [item]
  | .insert _ _ item, .replaced _ => [item]
  | _, _ => []

end Call

def Answer.returned : Answer → List Value
  | .value old | .replaced old => old.toList
  | .values children => children
  | _ => []

structure Call.Conserves (call : Call) (before : Container) (answer : Answer) (after : Container) : Prop where
  trades : before.Trades after (call.stored answer) answer.returned
  applied : call.Applies before → call.stored answer = call.offers ∧ answer.returned = call.displaces before
  refused : ¬call.Applies before → call.stored answer = [] ∧ answer.returned = [] ∧ after = before
  kind : after.kind = before.kind
  ordered : before.kind.isList →
    Splices before.children answer.returned (call.stored answer) after.children

def Call.Exchanges (call : Call) (container : Container) : Option (Value × Container) → Prop
  | some (old, next) => call.Conserves container (.value (some old)) next
  | none => call.Conserves container (.value none) container

namespace Call

variable {call : Call} {container next : Container} {answer : Answer} {id : Ident} {item : Value} {index : Nat}
  {key : Key} {replaced : Option Value}

theorem Conserves.refuse (idle : ¬call.Applies container) (stored : call.stored answer = [])
    (returned : answer.returned = []) : call.Conserves container answer container where
  trades := by rw [stored, returned]; exact .refl container
  applied applies := absurd applies idle
  refused _ := ⟨stored, returned, rfl⟩
  kind := rfl
  ordered _ := by rw [stored, returned]; exact splices_refl _

theorem conserves_push (pushed : container.push? item = some next) :
    (push id item).Conserves container (.flag true) next := by
  cases container with
  | map entries => cases pushed
  | list kind items =>
    have trades := Container.trades_push? pushed
    cases pushed
    exact ⟨trades, fun _ => ⟨rfl, rfl⟩, fun idle => absurd rfl idle, rfl, fun _ => splices_append item⟩

theorem conserves_push_none (unpushed : container.push? item = none) :
    (push id item).Conserves container (.flag false) container := by
  cases container with
  | map entries => exact .refuse nofun rfl rfl
  | list kind items => cases unpushed

theorem conserves_insert (inserted : container.insert? key item = some (replaced, next)) :
    (insert id key item).Conserves container (.replaced replaced) next := by
  cases container with
  | list kind items => cases inserted
  | map entries =>
    have trades := Container.trades_insert? inserted
    cases inserted
    exact ⟨trades, fun _ => ⟨rfl, rfl⟩, fun idle => absurd rfl idle, rfl, nofun⟩

theorem conserves_insert_none (rejected : container.insert? key item = none) :
    (insert id key item).Conserves container (.rejected item) container := by
  cases container with
  | list kind items => exact .refuse nofun rfl rfl
  | map entries => cases rejected

theorem Exchanges.of_sought {sought : Option Value}
    (found : ∀ old, sought = some old → call.Conserves container (.value (some old)) next)
    (missing : sought = none → ¬call.Applies container) (unstored : call.stored (.value none) = []) :
    call.Exchanges container (sought.map fun old => (old, next)) := by
  cases sought with
  | some old => exact found old rfl
  | none => exact .refuse (missing rfl) unstored rfl

theorem exchanges_set : (set id index item).Exchanges container (container.set? index item) := by
  cases container with
  | map entries => exact .refuse (fun applies => nomatch applies.1) rfl rfl
  | list kind items =>
    refine .of_sought (fun old found => ?_) (fun missing applies => ?_) rfl
    · obtain ⟨inside, rfl⟩ := List.getElem?_eq_some_iff.mp found
      have changed : (Container.list kind items).set? index item =
          some (items[index], .list kind (items.set index item)) := congrArg (Option.map _) found
      exact ⟨Container.trades_set? changed, fun _ => ⟨rfl, congrArg Option.toList found.symm⟩,
        fun idle => absurd ⟨rfl, inside⟩ idle, rfl, fun _ => splices_set inside item⟩
    · have beyond : items.length ≤ index := List.getElem?_eq_none_iff.mp missing
      exact Nat.not_lt.mpr beyond applies.2

theorem exchanges_remove : (remove id index).Exchanges container (container.remove? index) := by
  cases container with
  | map entries => exact .refuse (fun applies => nomatch applies.1) rfl rfl
  | list kind items =>
    refine .of_sought (fun old found => ?_) (fun missing applies => ?_) rfl
    · obtain ⟨inside, rfl⟩ := List.getElem?_eq_some_iff.mp found
      have removed : (Container.list kind items).remove? index =
          some (items[index], .list kind (items.eraseIdx index)) := congrArg (Option.map _) found
      exact ⟨Container.trades_remove? removed, fun _ => ⟨rfl, congrArg Option.toList found.symm⟩,
        fun idle => absurd ⟨rfl, inside⟩ idle, rfl, fun _ => splices_eraseIdx inside⟩
    · have beyond : items.length ≤ index := List.getElem?_eq_none_iff.mp missing
      exact Nat.not_lt.mpr beyond applies.2

theorem exchanges_removeKey : (removeKey id key).Exchanges container (container.removeKey? key) := by
  cases container with
  | list kind items => exact .refuse (fun applies => nomatch applies.1) rfl rfl
  | map entries =>
    refine .of_sought (fun old found => ?_) (fun missing applies => ?_) rfl
    · have removed : (Container.map entries).removeKey? key = some (old, .map (entries.erase key)) :=
        congrArg (Option.map _) found
      have known : (Container.map entries).lookup? key = some old := found
      exact ⟨Container.trades_removeKey? removed, fun _ => ⟨rfl, congrArg Option.toList known.symm⟩,
        fun idle => absurd ⟨rfl, by rw [known]; rfl⟩ idle, rfl, nofun⟩
    · have unknown : (Container.map entries).lookup? key = none := missing
      rw [Applies, unknown] at applies
      exact nomatch applies.2

theorem conserves_clear : (clear id).Conserves container (.values container.children) container.clear where
  trades := Container.trades_clear
  applied _ := ⟨rfl, rfl⟩
  refused idle := absurd trivial idle
  kind := Container.kind_empty container.kind
  ordered _ := by
    rw [Container.children_clear]
    exact splices_whole _

end Call

namespace World

variable {world : World} {call : Call} {id : Ident} {calls : List Call}

theorem conserves_exchange {result : Option (Value × Container)}
    (exchanges : call.Exchanges (world.heap.container id) result) : ∃ answer,
    (world.exchange id result).2 = .ok answer ∧
      call.Conserves (world.heap.container id) answer ((world.exchange id result).1.heap.container id) := by
  match result, exchanges with
  | some (old, next), exchanges =>
    refine ⟨.value (some old), rfl, ?_⟩
    rw [exchange, Heap.container_setContainer, if_pos rfl]
    exact exchanges
  | none, exchanges => exact ⟨.value none, rfl, exchanges⟩

theorem conserves_answer (world : World) (mutates : call.Mutates id) : ∃ answer,
    (world.answer call).2 = .ok answer ∧
      call.Conserves (world.heap.container id) answer ((world.answer call).1.heap.container id) := by
  cases mutates with
  | push item =>
    simp only [World.answer]
    cases pushed : (world.heap.container id).push? item with
    | some next =>
      refine ⟨.flag true, rfl, ?_⟩
      rw [Heap.container_setContainer, if_pos rfl]
      exact Call.conserves_push pushed
    | none => exact ⟨.flag false, rfl, Call.conserves_push_none pushed⟩
  | insert key item =>
    simp only [World.answer]
    cases inserted : (world.heap.container id).insert? key item with
    | some pair =>
      refine ⟨.replaced pair.1, rfl, ?_⟩
      rw [Heap.container_setContainer, if_pos rfl]
      exact Call.conserves_insert inserted
    | none => exact ⟨.rejected item, rfl, Call.conserves_insert_none inserted⟩
  | set index item => exact conserves_exchange Call.exchanges_set
  | remove index => exact conserves_exchange Call.exchanges_remove
  | removeKey key => exact conserves_exchange Call.exchanges_removeKey
  | clear =>
    refine ⟨.values (world.heap.container id).children, rfl, ?_⟩
    simp only [World.answer]
    rw [Heap.container_setContainer, if_pos rfl]
    exact Call.conserves_clear

theorem conserves_perform (mutates : call.Mutates id) (held : ∀ value ∈ call.values, world.heap.holds value) :
    ∃ answer, (world.perform call).2 = .ok answer ∧
      call.Conserves (world.heap.container id) answer ((world.perform call).1.heap.container id) := by
  unfold perform
  rw [if_pos (List.all_eq_true.mpr held)]
  exact conserves_answer world mutates

def stores (world : World) (call : Call) : List Value :=
  match (world.perform call).2 with
  | .ok answer => call.stored answer
  | .error _ => []

def returns (world : World) (call : Call) : List Value :=
  match (world.perform call).2 with
  | .ok answer => answer.returned
  | .error _ => []

theorem trades_perform (mutates : call.Mutates id) (held : ∀ value ∈ call.values, world.heap.holds value) :
    (world.heap.container id).Trades ((world.perform call).1.heap.container id) (world.stores call)
      (world.returns call) := by
  obtain ⟨answer, answered, conserves⟩ := conserves_perform mutates held
  unfold stores returns
  rw [answered]
  exact conserves.trades

theorem holds_after {value : Value} (mutate : ∀ call ∈ calls, call.Mutates id) (held : world.heap.holds value) :
    (world.after calls).heap.holds value := by
  induction calls generalizing world with
  | nil => exact held
  | cons call rest ih =>
    obtain ⟨mutates, later⟩ := List.forall_mem_cons.mp mutate
    -- Only a settle takes values away.
    have busy : call ≠ .settle := by rintro rfl; cases mutates
    exact ih later (holds_perform busy held)

theorem trades_after (mutate : ∀ call ∈ calls, call.Mutates id)
    (held : ∀ call ∈ calls, ∀ value ∈ call.values, world.heap.holds value) :
    (world.heap.container id).Trades ((world.after calls).heap.container id) (world.gather stores calls)
      (world.gather returns calls) := by
  induction calls generalizing world with
  | nil => exact .refl _
  | cons call rest ih =>
    obtain ⟨mutates, later⟩ := List.forall_mem_cons.mp mutate
    obtain ⟨here, others⟩ := List.forall_mem_cons.mp held
    have busy : call ≠ .settle := by rintro rfl; cases mutates
    exact (trades_perform mutates here).trans
      (ih later fun other member value named => holds_perform busy (others other member value named))

/-- Calls that change one container, on values that exist: each does what its answer says, the container that
it leaves reports itself rightly, and at the end the container holds what it held before and what has been
stored, less what has been returned. -/
theorem mutations_conserve (world : World) (id : Ident) (calls : List Call)
    (mutate : ∀ call ∈ calls, call.Mutates id)
    (held : ∀ call ∈ calls, ∀ value ∈ call.values, world.heap.holds value) :
    (∀ earlier call later, calls = earlier ++ call :: later → ∃ answer,
      ((world.after earlier).perform call).2 = .ok answer ∧
        call.Conserves ((world.after earlier).heap.container id) answer
          ((world.after (earlier ++ [call])).heap.container id)) ∧
      (∀ earlier, earlier <+: calls → ((world.after earlier).heap.container id).Reports) ∧
      (world.heap.container id).Trades ((world.after calls).heap.container id) (world.gather stores calls)
        (world.gather returns calls) := by
  refine ⟨?_, fun earlier _ => Container.reports _, trades_after mutate held⟩
  rintro earlier call later rfl
  -- What this call names exists in the world at the start, and the calls before have to leave it there.
  have before : ∀ other ∈ earlier, other.Mutates id := fun other member => mutate other (by simp [member])
  rw [after_append]
  exact conserves_perform (mutate call (by simp)) fun value named =>
    holds_after before (held call (by simp) value named)

/-- A map is filled against the order of its keys, one key twice, and emptied again. Two calls do not apply. -/
def keyedCalls : List Call :=
  let number (value : Int) : Value := .scalar (.integer value)
  [.insert 0 [98] (number 2), .insert 0 [97] (number 1), .insert 0 [98] (number 3), .push 0 (number 4),
    .removeKey 0 [99], .removeKey 0 [97], .insert 0 [] (.shared (.container 0)), .clear 0]

def keyedWorld : World := (({} : Settings).world .absent).after [.newContainer .map]

theorem mutations_conserve_keyed :
    keyedWorld.gather returns keyedCalls = [.scalar (.integer 2), .scalar (.integer 1), .shared (.container 0),
        .scalar (.integer 3)] ∧
      (keyedWorld.heap.container 0).Trades ((keyedWorld.after keyedCalls).heap.container 0)
        (keyedWorld.gather stores keyedCalls) (keyedWorld.gather returns keyedCalls) := by
  refine ⟨by decide +kernel, (mutations_conserve keyedWorld 0 keyedCalls ?_ ?_).2.2⟩
  · simp only [keyedCalls, List.forall_mem_cons]
    exact ⟨.insert _ _, .insert _ _, .insert _ _, .push _, .removeKey _, .removeKey _, .insert _ _, .clear, nofun⟩
  · decide +kernel

end World

end Reclaim
