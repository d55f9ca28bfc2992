import Reclaim.Proofs.Replay.Plan

/-! Lines of scripts are paired. In a session whose counter agrees with the heap, every line but a
settle performs its plan, and the calls of the plan are paired and pay for all they owe. -/

set_option autoImplicit false

namespace Reclaim

namespace Session

variable {session : Session} {line : Nat} {id : Ident} {item : Value}

def Named (session : Session) : Prop :=
  ∀ (name : String) (ref : Ref), session.bindings[name]? = some (.shared ref) →
    session.origins[ref.id]? = some name

/-- The counter agrees with the heap. Names are bound to values that exist, shared values to the name
that they are known by, and every tracked value is known by a name. -/
structure Sound (session : Session) : Prop where
  agrees : session.world.Sound []
  bound : ∀ (name : String) (value : Value), session.bindings[name]? = some value →
    session.heap.holds value
  named : session.Named
  known : ∀ ref ∈ session.counter.ledger.tracked, session.origins[ref.id]?.isSome
  identify : ∀ number, session.identify number = number

theorem lookup_ok {name : String} {value : Value} (found : session.lookup line name = .ok value) :
    session.bindings[name]? = some value := by
  unfold lookup at found
  split at found <;> cases found
  assumption

theorem container_ok {name : String} {expected : Expected} {container : Container}
    (found : session.container line name expected = .ok (id, container)) :
    session.bindings[name]? = some (.shared (.container id)) ∧
      session.heap.container id = container ∧ expected.accepts container.kind := by
  obtain ⟨value, named, found⟩ := ok_of_bind found
  split at found
  next => cases found
  next other shared =>
    simp only at found
    split at found
    next accepted =>
      cases found
      have same : value = .shared (.container id) := by
        unfold Value.container? at shared
        split at shared <;> cases shared
        rfl
      exact ⟨same ▸ lookup_ok named, rfl, accepted⟩
    next => cases found

theorem push?_of_list {container : Container} (item : Value)
    (list : Expected.list.accepts container.kind) : ∃ next, container.push? item = some next := by
  cases container with
  | list kind items => exact ⟨_, rfl⟩
  | map entries => cases list

theorem insert?_of_map {container : Container} (key : Key) (item : Value)
    (map : Expected.map.accepts container.kind) :
    ∃ next, container.insert? key item = some (container.lookup? key, next) := by
  cases container with
  | list kind items => cases map
  | map entries => exact ⟨_, rfl⟩

theorem map_label_none {result : Except Fault Session} : result.map (·.label none) = result := by
  cases result <;> rfl

/-- What a line does is what the calls of its plan do. They are paired, pay for all they owe, and open
accounts for values that are known by a name. -/
structure Carries (session : Session) (line : Nat) (op : Op) (plan : Plan)
    (result : Except Fault Session) : Prop where
  result : result = (session.tell line plan.calls).map (·.label plan.named)
  paired : session.world.Paired [] (plan.calls ++ [.settle])
  busy : ∀ call ∈ plan.calls, call ≠ .settle
  opens : ∀ call ∈ plan.calls, ∀ ref, .shared ref ∈ call.opens →
    (session.label plan.named).origins[ref.id]?.isSome
  holds : ∀ item count, .addHolds item count ∈ plan.calls → ∃ name, op = .push name count
  made : ∀ name ref, plan.named = some (name, .shared ref) → ref.id = session.created ∧
    ∀ next, session.tell line plan.calls = .ok next → next.heap.holds (.shared ref)

def Follows (session : Session) (line : Nat) (op : Op) (result : Except Fault Session) :
    Except Fault Plan → Prop
  | .error fault => result = .error fault
  | .ok plan => session.Carries line op plan result

theorem follows_lookup {op : Op} {name : String} {plan : Value → Except Fault Plan}
    {result : Value → Except Fault Session}
    (follows : ∀ value, session.bindings[name]? = some value →
      session.Follows line op (result value) (plan value)) :
    session.Follows line op (session.lookup line name >>= result) (session.lookup line name >>= plan) := by
  cases found : session.lookup line name with
  | error fault => exact rfl
  | ok value => exact follows value (lookup_ok found)

theorem follows_container {op : Op} {name : String} {expected : Expected}
    {plan : Ident × Container → Except Fault Plan} {result : Ident × Container → Except Fault Session}
    (follows : ∀ id, session.bindings[name]? = some (.shared (.container id)) →
      expected.accepts (session.heap.container id).kind →
        session.Follows line op (result (id, session.heap.container id))
          (plan (id, session.heap.container id))) :
    session.Follows line op (session.container line name expected >>= result)
      (session.container line name expected >>= plan) := by
  cases found : session.container line name expected with
  | error fault => exact rfl
  | ok pair =>
    obtain ⟨id, container⟩ := pair
    obtain ⟨named, rfl, accepted⟩ := container_ok found
    exact follows id named accepted

namespace Sound

theorem children_held (sound : session.Sound) {child : Value}
    (member : child ∈ (session.heap.container id).children) : session.heap.holds child :=
  sound.agrees.ledger.formed.children_held (.container id) child member

theorem held_setContainer {next : Container} {value : Value} (held : session.heap.holds value) :
    (session.setContainer id next).heap.holds value := by
  rw [setContainer, Heap.holds_setContainer, held, Bool.or_true]

theorem carries_label {op : Op} {name : String} {atom : Scalar} :
    session.Carries line op ⟨[], some (name, .scalar atom)⟩ (.ok (session.bind name (.scalar atom))) where
  result := rfl
  paired := ⟨rfl, fun _ _ _ => trivial⟩
  busy _ member := nomatch member
  opens _ member := nomatch member
  holds _ _ member := nomatch member
  made _ _ named := nomatch named

theorem carries_made {op : Op} {name : String} {result : Except Fault Session} (call : Call)
    (ref : Ident → Ref) (fresh : (ref session.created).id = session.created)
    (silent : call.counted = false) (unowed : ∀ answer, call.dues answer = [])
    (outcome : result =
      (session.tell line [call, .register (.shared (ref session.created))]).map
        (·.label (some (name, .shared (ref session.created)))))
    (made : ∀ next, session.tell line [call, .register (.shared (ref session.created))] = .ok next →
      next.heap.holds (.shared (ref session.created))) :
    session.Carries line op
      ⟨[call, .register (.shared (ref session.created))], some (name, .shared (ref session.created))⟩
      result where
  result := outcome
  paired := by
    refine ⟨Call.allowed_of_silent silent, fun after answer _ => ?_⟩
    rw [Call.owedAfter_of_silent silent, unowed]
    exact ⟨trivial, fun _ _ _ => ⟨rfl, fun _ _ _ => trivial⟩⟩
  busy other member := by
    rintro rfl
    simp only [List.mem_cons, List.not_mem_nil, or_false, reduceCtorEq] at member
    rw [← member] at silent
    cases silent
  opens other member ref opened := by
    simp only [List.mem_cons, List.not_mem_nil, or_false] at member
    rcases member with rfl | rfl
    · rw [Call.opens_of_silent silent] at opened
      cases opened
    · cases List.mem_singleton.mp opened
      simp [label]
  holds item count member := by
    simp only [List.mem_cons, List.not_mem_nil, or_false, reduceCtorEq] at member
    rw [← member] at silent
    cases silent
  made _ _ named := by
    cases named
    exact ⟨fresh, made⟩

theorem carries_count {op : Op} {name : String} {result : Except Fault Session} (sound : session.Sound)
    (call : Call) (named : session.bindings[name]? = some item) (busy : call ≠ .settle)
    (allowed : ∀ owed, call.Allowed owed) (unowed : ∀ answer, call.owedAfter [] answer = [])
    (opens : ∀ value ∈ call.opens, value = item)
    (holds : ∀ item count, call = .addHolds item count → ∃ name, op = .push name count)
    (outcome : result = session.tell line [call]) : session.Carries line op ⟨[call], none⟩ result where
  result := by
    rw [outcome]
    exact map_label_none.symm
  paired := ⟨allowed [], fun after answer _ => (unowed answer).symm ▸ ⟨rfl, fun _ _ _ => trivial⟩⟩
  busy other member := List.mem_singleton.mp member ▸ busy
  opens other member ref opened := by
    rw [List.mem_singleton.mp member] at opened
    rw [← opens _ opened] at named
    rw [label, sound.named name ref named]
    rfl
  holds item count member := holds item count (List.mem_singleton.mp member).symm
  made _ _ named := nomatch named

theorem carries_paid {op : Op} {result : Except Fault Session} (sound : session.Sound) (call : Call)
    (answer : Answer) (id : Ident) (next : Container) (silent : call.counted = false)
    (bound : ∀ value ∈ call.values, ∃ name : String, session.bindings[name]? = some value)
    (answered : session.world.answer call =
      ({ session.world with heap := session.heap.setContainer id next }, .ok answer))
    (outcome : result = (session.setContainer id next).tell line ((call.dues answer).map Due.call)) :
    session.Carries line op ⟨call.paid answer, none⟩ result := by
  have held : ∀ value ∈ call.values, session.world.heap.holds value := fun value member => by
    obtain ⟨name, named⟩ := bound value member
    exact sound.bound name value named
  have performed := (perform_eq_answer held).trans answered
  exact
    { result := by
        rw [outcome]
        exact (map_label_none.trans (tell_change performed)).symm
      paired := World.paired_paid performed silent
      busy := fun other member same => Call.settle_not_mem_paid silent (same ▸ member)
      opens := fun other member ref opened => by
        obtain ⟨name, named⟩ := bound _ (Call.opens_paid member silent opened)
        rw [label, sound.named name ref named]
        rfl
      holds := fun item count member => absurd member (Call.addHolds_not_mem_paid silent)
      made := fun _ _ named => nomatch named }

theorem carries_loss {op : Op} {owner : String} {old : Value} {next : Container}
    (sound : session.Sound) (call : Call)
    (ownerNamed : session.bindings[owner]? = some (.shared (.container id)))
    (member : old ∈ (session.heap.container id).children) (silent : call.counted = false)
    (values : call.values = [.shared (.container id)])
    (dues : call.dues (.value (some old)) = [.loss old (.shared (.container id))])
    (answered : session.world.answer call =
      ({ session.world with heap := session.heap.setContainer id next }, .ok (.value (some old)))) :
    session.Carries line op ⟨call.paid (.value (some old)), none⟩
      ((session.setContainer id next).lose line id old) := by
  refine sound.carries_paid call (.value (some old)) id next silent ?_ answered ?_
  · rw [values]
    exact List.forall_mem_singleton.mpr ⟨owner, ownerNamed⟩
  · have oldHeld := sound.children_held member
    rw [dues, lose_eq_loseAll]
    exact (tell_loseAll (List.forall_mem_singleton.mpr (held_setContainer oldHeld))
      (held_setContainer (sound.bound owner _ ownerNamed))).symm

theorem follows_new {line : Nat} (sound : session.Sound) (kind : Kind) (name : String) :
    session.Follows line (.newContainer kind name) (.ok (session.newContainer kind name))
      (session.plan line (.newContainer kind name)) := by
  have fresh : session.nextIdent = session.created := sound.identify session.created
  have holds : (session.heap.newContainer session.created kind).holds
      (.shared (.container session.created)) := by
    simp [Heap.newContainer, Heap.holds_setContainer]
  have told : session.tell line _ = _ := tell_made (.newContainer kind) .container
    (session.heap.newContainer session.created kind) rfl rfl holds
  refine carries_made (.newContainer kind) .container rfl rfl (fun _ => rfl) ?_ fun next made => ?_
  · rw [told, newContainer, fresh]
    rfl
  · rw [told] at made
    cases made
    exact holds

theorem follows_newBuffer (sound : session.Sound) (name : String) (size : Nat) :
    session.Follows line (.newBuffer name size) (session.newBuffer name size)
      (session.plan line (.newBuffer name size)) := by
  have fresh : session.nextIdent = session.created := sound.identify session.created
  by_cases fits : size ≤ maxCapacity
  · have holds : (session.heap.setBuffer session.created
        { block := Block.empty.resize size, pooled := false }).holds
          (.shared (.buffer session.created)) := by
      simp [Heap.holds_setBuffer]
    have told : session.tell line _ = _ := tell_made (.newBuffer size) .buffer
      (session.heap.setBuffer session.created { block := Block.empty.resize size, pooled := false })
      rfl (by simp only [World.answer, Heap.newBuffer, if_pos fits, world]) holds
    refine carries_made (.newBuffer size) .buffer rfl rfl (fun _ => rfl) ?_ fun next made => ?_
    · rw [told, newBuffer, fresh, Heap.newBuffer, if_pos fits]
      rfl
    · rw [told] at made
      cases made
      exact holds
  · have failed : session.tell line [.newBuffer size, .register (.shared (.buffer session.created))] =
        .error (.aborted .capacityOverflow) := by
      have performed : session.world.perform (.newBuffer size) =
          (session.world, .error (.failed (.aborted .capacityOverflow))) := by
        rw [perform_eq_answer (by simp [Call.values])]
        simp only [World.answer, Heap.newBuffer, if_neg fits]
      rw [tell, World.performAll, performed]
      rfl
    refine carries_made (.newBuffer size) .buffer rfl rfl (fun _ => rfl) ?_ fun next made => ?_
    · rw [failed, newBuffer, Heap.newBuffer, if_neg fits]
      rfl
    · rw [failed] at made
      cases made

theorem follows_append (sound : session.Sound) (owner child : String) :
    session.Follows line (.append owner child) (session.append line owner child)
      (session.plan line (.append owner child)) := by
  refine follows_container fun id ownerNamed list => follows_lookup fun item named => ?_
  have held := sound.bound child item named
  have ownerHeld := sound.bound owner _ ownerNamed
  obtain ⟨next, pushed⟩ := push?_of_list item list
  refine sound.carries_paid (.push id item) (.flag true) id next rfl ?_
    (by simp only [World.answer, world, pushed]) ?_
  · exact List.forall_mem_cons.mpr ⟨⟨owner, ownerNamed⟩, List.forall_mem_singleton.mpr ⟨child, named⟩⟩
  · simp only [pushed, Option.getD_some]
    exact gain_eq_tell (held_setContainer held) (held_setContainer ownerHeld)

theorem follows_set (sound : session.Sound) (owner : String) (index : Nat) (child : String) :
    session.Follows line (.set owner index child) (session.set line owner index child)
      (session.plan line (.set owner index child)) := by
  refine follows_container fun id ownerNamed _ => follows_lookup fun item named => ?_
  have held := sound.bound child item named
  have ownerHeld := sound.bound owner _ ownerNamed
  -- The plan reads the old child, and the change returns it.
  have read := Container.map_set? (session.heap.container id) index item
  simp only [← read]
  cases changed : (session.heap.container id).set? index item with
  | none => exact rfl
  | some pair =>
    obtain ⟨old, next⟩ := pair
    rw [changed] at read
    have oldHeld := sound.children_held (Container.mem_of_get? read.symm)
    refine sound.carries_paid (.set id index item) (.value (some old)) id next rfl ?_
      (by simp only [World.answer, World.exchange, world, changed]) ?_
    · exact List.forall_mem_cons.mpr ⟨⟨owner, ownerNamed⟩, List.forall_mem_singleton.mpr ⟨child, named⟩⟩
    · simp only [lose_eq_loseAll]
      exact (tell_gain_loseAll (held_setContainer held) (held_setContainer ownerHeld)
        (List.forall_mem_singleton.mpr (held_setContainer oldHeld))).symm

theorem follows_put (sound : session.Sound) (owner key child : String) :
    session.Follows line (.put owner key child) (session.put line owner key child)
      (session.plan line (.put owner key child)) := by
  refine follows_container fun id ownerNamed map => follows_lookup fun item named => ?_
  have held := sound.bound child item named
  have ownerHeld := sound.bound owner _ ownerNamed
  obtain ⟨next, inserted⟩ := insert?_of_map (encodeText key) item map
  refine sound.carries_paid (.insert id (encodeText key) item) (.replaced _) id next rfl ?_
    (by simp only [World.answer, world, inserted]) ?_
  · exact List.forall_mem_cons.mpr ⟨⟨owner, ownerNamed⟩, List.forall_mem_singleton.mpr ⟨child, named⟩⟩
  · simp only [inserted, Option.getD_some, Call.dues, List.map_cons, List.map_map]
    refine (tell_gain_loseAll (held_setContainer held) (held_setContainer ownerHeld)
      fun old member => held_setContainer ?_).symm
    exact sound.children_held (Container.mem_of_lookup? (Option.mem_toList.mp member))

theorem follows_remove (sound : session.Sound) (owner : String) (index : Nat) :
    session.Follows line (.remove owner index) (session.remove line owner index)
      (session.plan line (.remove owner index)) := by
  refine follows_container fun id ownerNamed _ => ?_
  have read := Container.map_remove? (session.heap.container id) index
  simp only [← read]
  cases changed : (session.heap.container id).remove? index with
  | none => exact rfl
  | some pair =>
    obtain ⟨old, next⟩ := pair
    rw [changed] at read
    exact sound.carries_loss (.remove id index) ownerNamed (Container.mem_of_get? read.symm) rfl rfl rfl
      (by simp only [World.answer, World.exchange, world, changed])

theorem follows_delete (sound : session.Sound) (owner key : String) :
    session.Follows line (.delete owner key) (session.delete line owner key)
      (session.plan line (.delete owner key)) := by
  refine follows_container fun id ownerNamed _ => ?_
  have read := Container.map_removeKey? (session.heap.container id) (encodeText key)
  simp only [← read]
  cases changed : (session.heap.container id).removeKey? (encodeText key) with
  | none => exact rfl
  | some pair =>
    obtain ⟨old, next⟩ := pair
    rw [changed] at read
    exact sound.carries_loss (.removeKey id (encodeText key)) ownerNamed
      (Container.mem_of_lookup? read.symm) rfl rfl rfl
      (by simp only [World.answer, World.exchange, world, changed])

theorem follows_clear (sound : session.Sound) (owner : String) :
    session.Follows line (.clear owner) (session.clear line owner)
      (session.plan line (.clear owner)) := by
  refine follows_container fun id ownerNamed _ => ?_
  have ownerHeld := sound.bound owner _ ownerNamed
  refine sound.carries_paid (.clear id) (.values (session.heap.container id).children) id _ rfl
    (List.forall_mem_singleton.mpr ⟨owner, ownerNamed⟩) rfl ?_
  simp only [Call.dues, List.map_map]
  exact (tell_loseAll (fun child member => held_setContainer (sound.children_held member))
    (held_setContainer ownerHeld)).symm

/-- Every line but a settle carries its plan out. -/
theorem follows_step {step : ScriptLine} (sound : session.Sound) (busy : step.op ≠ .settle) :
    ∃ result, (session.step step).outcome = result.map (fun next => (next, none)) ∧
      session.Follows step.number step.op result (session.plan step.number step.op) := by
  obtain ⟨line, op⟩ := step
  cases op with
  | settle => exact absurd rfl busy
  | newContainer kind name => exact ⟨_, rfl, sound.follows_new kind name⟩
  | newBuffer name size => exact ⟨_, rfl, sound.follows_newBuffer name size⟩
  | int name value => exact ⟨.ok _, rfl, carries_label⟩
  | bytes name text => exact ⟨.ok _, rfl, carries_label⟩
  | push name count =>
    refine ⟨_, rfl, follows_lookup fun item named => ?_⟩
    exact sound.carries_count (.addHolds item count) named (by simp) (fun _ => trivial) (fun _ => rfl)
      (fun value member => List.mem_singleton.mp member) (fun _ _ same => ⟨name, by cases same; rfl⟩)
      (addHolds_eq_tell (sound.bound name item named))
  | pop name =>
    refine ⟨_, rfl, follows_lookup fun item named => ?_⟩
    exact sound.carries_count (.removeHold item) named (by simp) (fun _ => trivial) (fun _ => rfl)
      (fun value member => absurd member List.not_mem_nil) (fun _ _ same => by cases same)
      (removeHold_eq_tell (sound.bound name item named))
  | append owner child => exact ⟨_, rfl, sound.follows_append owner child⟩
  | set owner index child => exact ⟨_, rfl, sound.follows_set owner index child⟩
  | put owner key child => exact ⟨_, rfl, sound.follows_put owner key child⟩
  | remove owner index => exact ⟨_, rfl, sound.follows_remove owner index⟩
  | delete owner key => exact ⟨_, rfl, sound.follows_delete owner key⟩
  | clear owner => exact ⟨_, rfl, sound.follows_clear owner⟩

end Sound

end Session

end Reclaim
