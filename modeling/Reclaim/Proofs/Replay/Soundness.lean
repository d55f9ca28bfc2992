import Reclaim.Proofs.Replay.Carrying
import Reclaim.Replay.Run

/-! Sessions stay sound. A line that is carried out keeps the counter in agreement with the heap and the
names in agreement with the tracked values, and so does a settle that succeeds. -/

set_option autoImplicit false

namespace Reclaim

namespace Session

variable {session next : Session} {line : Nat} {op : Op} {plan : Plan} {given : Option (String × Value)}
  {world : World}

theorem tell_ok {calls : List Call} (told : session.tell line calls = .ok next) :
    ∃ world, session.world.performAll calls = .ok world ∧ next = session.resume world := by
  obtain ⟨world, performed, same⟩ := ok_of_map told
  exact ⟨world, ok_of_mapError performed, same.symm⟩

theorem world_label : (session.label given).world = session.world := by
  unfold label
  split <;> rfl

theorem heap_label : (session.label given).heap = session.heap := congrArg World.heap world_label

theorem counter_label : (session.label given).counter = session.counter :=
  congrArg World.counter world_label

theorem bound_label {name : String} {value : Value}
    (found : (session.label given).bindings[name]? = some value) :
    given = some (name, value) ∨ session.bindings[name]? = some value := by
  unfold label at found
  split at found
  next => exact .inr found
  all_goals
    simp only [bind, Std.ExtTreeMap.getElem?_insert] at found
    split at found
    next here =>
      cases found
      exact .inl (by rw [Std.LawfulEqCmp.compare_eq_iff_eq.mp here])
    next => exact .inr found

theorem origins_label {id : Ident} (known : session.origins[id]?.isSome) :
    (session.label given).origins[id]?.isSome := by
  unfold label
  split
  · exact known
  · exact known
  · simp only [Std.ExtTreeMap.getElem?_insert]
    split
    · rfl
    · exact known

theorem origins_label_resume : ((session.resume world).label given).origins =
    (session.label given).origins := by
  unfold label
  split <;> rfl

namespace Sound

theorem label (sound : session.Sound) (agrees : world.Sound [])
    (kept : ∀ value, session.heap.holds value → world.heap.holds value)
    (known : ∀ ref ∈ world.counter.ledger.tracked, (session.label given).origins[ref.id]?.isSome)
    (made : ∀ name ref, given = some (name, .shared ref) →
      ref.id = session.created ∧ world.heap.holds (.shared ref)) :
    ((session.resume world).label given).Sound where
  agrees := by
    rw [world_label]
    exact agrees
  identify := by
    unfold Session.label
    split <;> exact sound.identify
  known := by
    intro ref tracked
    rw [origins_label_resume]
    refine known ref ?_
    rwa [counter_label] at tracked
  bound name value found := by
    rw [heap_label]
    rcases bound_label found with rfl | older
    · cases value with
      | scalar atom => rfl
      | shared ref => exact (made name ref rfl).2
    · exact kept value (sound.bound name value older)
  named name ref found := by
    rcases bound_label found with rfl | older
    · simp [Session.label]
    -- The identity of a new value is above those of the values that names are bound to already.
    have less := sound.agrees.ledger.formed.lt ref (sound.bound name _ older)
    unfold Session.label
    split
    · exact sound.named name ref older
    · exact sound.named name ref older
    next other fresh =>
      simp only [resume, Std.ExtTreeMap.getElem?_insert]
      rw [if_neg, sound.named name ref older]
      rw [Std.LawfulEqCmp.compare_eq_iff_eq, (made other fresh rfl).1]
      exact Nat.ne_of_gt less

theorem names (sound : session.Sound) : session.counter.ledger.book.Names fun ref =>
    (session.label given).origins[ref.id]?.isSome := by
  intro id account known
  obtain ⟨_, tracked⟩ := sound.agrees.ledger.valid.tracked_of_account known
  exact origins_label (sound.known account.item tracked)

end Sound

structure Performs (session : Session) (step : ScriptLine) (plan : Plan) (world : World)
    (next : Session) : Prop where
  carries : ∃ result, session.Carries step.number step.op plan result
  performed : session.world.performAll plan.calls = .ok world
  next : next = (session.resume world).label plan.named

theorem Sound.performs {step : ScriptLine} {report : Option Report} (sound : session.Sound)
    (busy : step.op ≠ .settle) (done : (session.step step).outcome = .ok (next, report)) :
    report = none ∧ ∃ plan world, session.Performs step plan world next := by
  obtain ⟨result, outcome, follows⟩ := sound.follows_step busy
  rw [outcome] at done
  cases planned : session.plan step.number step.op with
  | error fault =>
    rw [planned] at follows
    rw [show result = .error fault from follows] at done
    cases done
  | ok plan =>
    rw [planned] at follows
    have carries : session.Carries step.number step.op plan result := follows
    obtain ⟨_, labelled, same⟩ := ok_of_map done
    rw [carries.result] at labelled
    obtain ⟨after, told, rfl⟩ := ok_of_map labelled
    obtain ⟨rfl, rfl⟩ := Prod.mk.inj same
    obtain ⟨world, performed, rfl⟩ := tell_ok told
    exact ⟨rfl, plan, world, ⟨result, carries⟩, performed, rfl⟩

/-- What allowed calls keep is kept by a line, because its calls pay for all they owe. -/
theorem Performs.keeps {step : ScriptLine} (performs : session.Performs step plan world next)
    (Keeps : World → List Due → Prop) (Good : Call → Prop)
    (kept : ∀ world owed call after answer, Keeps world owed → call.Allowed owed → Good call →
      world.perform call = (after, .ok answer) → Keeps after (call.owedAfter owed answer))
    (start : Keeps session.world []) (good : ∀ call ∈ plan.calls, Good call) : Keeps world [] := by
  obtain ⟨_, carries⟩ := performs.carries
  exact World.Paired.performAll Keeps Good kept carries.paired start good performs.performed

theorem Performs.sound {step : ScriptLine} (performs : session.Performs step plan world next)
    (sound : session.Sound) : next.Sound := by
  obtain ⟨_, carries⟩ := performs.carries
  obtain ⟨agrees, names⟩ := performs.keeps
    (fun world owed => world.Sound owed ∧ world.counter.ledger.book.Names fun ref =>
      (session.label plan.named).origins[ref.id]?.isSome)
    (fun call => call ≠ .settle ∧ ∀ ref, .shared ref ∈ call.opens →
      (session.label plan.named).origins[ref.id]?.isSome)
    (fun _ _ _ _ _ ⟨sound, names⟩ allowed ⟨busy, opens⟩ performed =>
      ⟨sound.perform allowed performed, World.names_perform sound names busy opens performed⟩)
    ⟨sound.agrees, sound.names⟩
    fun call member => ⟨carries.busy call member, carries.opens call member⟩
  have present (value : Value) (held : session.world.heap.holds value) :=
    World.holds_performAll carries.busy held performs.performed
  rw [performs.next]
  refine sound.label agrees present (fun ref tracked => ?_) fun name ref named => ?_
  · obtain ⟨account, known, same⟩ := agrees.ledger.valid.mem_tracked_iff.mp tracked
    exact same ▸ names ref.id account known
  · obtain ⟨fresh, made⟩ := carries.made name ref named
    refine ⟨fresh, made (session.resume world) ?_⟩
    rw [tell, performs.performed]
    rfl

structure Forgets (before : Session) (ids : List Ident) (after : Session) : Prop where
  bindings : ∀ (name : String) (value : Value), after.bindings[name]? = some value ↔
    before.bindings[name]? = some value ∧ ∀ id ∈ ids, value.id? ≠ some id
  origins : ∀ id : Ident, after.origins[id]? = if id ∈ ids then none else before.origins[id]?
  world : after.world = before.world
  identify : after.identify = before.identify

namespace Forgets

variable {before after : Session} {ids : List Ident} {id : Ident}

theorem named (forgets : before.Forgets ids after) (named : before.Named) : after.Named := by
  intro name ref found
  obtain ⟨bound, outside⟩ := (forgets.bindings name _).mp found
  rw [forgets.origins, if_neg fun member => outside ref.id member rfl]
  exact named name ref bound

/-- A shared value is bound to the name that it is known by and to no other, so no binding of it is
left behind. -/
theorem forget (id : Ident) (named : before.Named) : before.Forgets [id] (before.forget id) := by
  -- The name that the identity is known by is the only one that can be bound to it.
  have unknown : ∀ (name : String) (value : Value), before.bindings[name]? = some value →
      value.id? = some id → before.origins[id]? = some name := by
    intro name value bound same
    cases value with
    | scalar atom => cases same
    | shared ref =>
      cases same
      exact named name ref bound
  cases known : before.origins[id]? with
  | none =>
    have same : before.forget id = before := by simp only [Session.forget, known]
    rw [same]
    refine ⟨fun name value => ?_, fun other => ?_, rfl, rfl⟩
    · refine ⟨fun bound => ⟨bound, fun other member same => ?_⟩, And.left⟩
      rw [List.mem_singleton.mp member] at same
      rw [unknown name value bound same] at known
      cases known
    · split
      next member => rw [List.mem_singleton.mp member, known]
      next => rfl
  | some origin =>
    simp only [Session.forget, known]
    refine ⟨fun name value => ?_, fun other => ?_, rfl, rfl⟩
    · simp only [List.mem_singleton, forall_eq]
      split
      next bound =>
        obtain ⟨held, read, same⟩ := Option.bind_eq_some_iff.mp bound
        rw [Std.ExtTreeMap.getElem?_erase]
        split
        next here =>
          rw [Std.LawfulEqCmp.compare_eq_iff_eq] at here
          subst here
          rw [read]
          simp only [reduceCtorEq, false_iff, not_and, not_not, Option.some.injEq]
          rintro rfl
          exact same
        next elsewhere =>
          refine ⟨fun found => ⟨found, fun named => elsewhere ?_⟩, And.left⟩
          rw [unknown name value found named] at known
          exact Std.LawfulEqCmp.compare_eq_iff_eq.mpr (Option.some.inj known).symm
      next unbound =>
        refine ⟨fun found => ⟨found, fun same => unbound ?_⟩, And.left⟩
        rw [unknown name value found same] at known
        cases known
        rw [found]
        exact same
    · simp only [getElem?_erase_key, List.mem_singleton, eq_comm]

theorem foldl (named : before.Named) : before.Forgets ids (ids.foldl Session.forget before) := by
  induction ids generalizing before with
  | nil => exact ⟨fun _ _ => by simp, fun _ => by simp, rfl, rfl⟩
  | cons id rest ih =>
    have first := forget id named
    have later := ih (first.named named)
    refine ⟨fun name value => ?_, fun other => ?_, later.world.trans first.world,
      later.identify.trans first.identify⟩
    · rw [List.foldl_cons, later.bindings, first.bindings, and_assoc]
      refine and_congr_right fun _ => ?_
      rw [List.forall_mem_singleton, List.forall_mem_cons]
    · rw [List.foldl_cons, later.origins, first.origins]
      by_cases inside : other ∈ rest
      · rw [if_pos inside, if_pos (List.mem_cons_of_mem id inside)]
      · simp [inside]

end Forgets

def collected (session : Session) : List Ident :=
  (session.counter.settle session.heap).removed.map (·.1.id)

def settled (session : Session) : Session :=
  session.collected.foldl Session.forget
    { session with
      heap := (session.counter.settle session.heap).heap
      counter := (session.counter.settle session.heap).counter }

def report (session : Session) (line count : Nat) : Report where
  line
  count
  retained := (session.counter.settle session.heap).counter.stats.retained
  removed := sortNames (session.collected.filterMap (session.origins[·]?))

theorem settle_refused {error : LedgerError}
    (refused : (session.counter.settle session.heap).result = .error error) :
    (session.settle line).outcome = .error (.failed line (.ledger error)) := by
  simp only [settle, refused]

theorem settle_done {count : Nat} (done : (session.counter.settle session.heap).result = .ok count) :
    (session.settle line).outcome =
      ((session.settled.budget.check session.settled.counter.ledger).mapError
        (.failed line <| .budget ·)).map
          fun _ => (session.settled, some (session.report line count)) := by
  simp only [settle, done]
  unfold settled collected report
  split
  next error exceeded =>
    rw [exceeded]
    rfl
  next within =>
    rw [within]
    rfl

theorem Named.settled (named : session.Named) : Forgets
    { session with
      heap := (session.counter.settle session.heap).heap
      counter := (session.counter.settle session.heap).counter }
    session.collected session.settled :=
  Forgets.foldl named

theorem counter_settled (sound : session.Sound) :
    session.settled.counter = (session.counter.settle session.heap).counter :=
  congrArg World.counter sound.named.settled.world

theorem heap_settled (sound : session.Sound) :
    session.settled.heap = (session.counter.settle session.heap).heap :=
  congrArg World.heap sound.named.settled.world

/-- A settle that succeeds for the counter checks the budget of what it leaves behind. -/
theorem Sound.settle_of_ok {count : Nat} (sound : session.Sound)
    (result : (session.counter.settle session.heap).result = .ok count) :
    (session.settle line).outcome =
      ((session.budget.check (session.counter.settle session.heap).counter.ledger).mapError
        (.failed line <| .budget ·)).map
          fun _ => (session.settled, some (session.report line count)) := by
  have budget : session.settled.budget = session.budget :=
    congrArg World.budget sound.named.settled.world
  rw [settle_done result, budget, counter_settled sound]

theorem Sound.counter (sound : session.Sound) :
    session.counter.Sound session.heap session.created [] :=
  sound.agrees

theorem collected_eq {refs : List Ref}
    (leaves : session.counter.Leaves session.heap refs (session.counter.settle session.heap)) :
    session.collected = refs.map Ref.id := by
  rw [collected, leaves.removed, List.map_map]
  rfl

section Settling

variable {refs : List Ref} {ref : Ref} (sound : session.Sound)
  (leaves : session.counter.Leaves session.heap refs (session.counter.settle session.heap))

include sound leaves

theorem Sound.mem_collected (tracked : ref ∈ session.counter.ledger.tracked) :
    ref.id ∈ session.collected ↔ ref ∈ refs := by
  rw [collected_eq leaves]
  refine ⟨fun member => ?_, List.mem_map_of_mem⟩
  obtain ⟨other, taken, same⟩ := List.mem_map.mp member
  have present := sound.agrees.ledger.present
  have held := present other (leaves.dead other taken).1
  exact sound.agrees.ledger.formed.inj other ref held (present ref tracked) same ▸ taken

theorem Sound.tracked_settled : ref ∈ session.settled.counter.ledger.tracked ↔
    ref ∈ session.counter.ledger.tracked ∧ ref ∉ refs := by
  rw [counter_settled sound, leaves.tracked]

theorem Sound.released_settled : session.settled.heap = session.heap.releaseAll refs :=
  (heap_settled sound).trans leaves.released

theorem Sound.holds_settled (value : Value) : session.settled.heap.holds value = session.heap.holds value := by
  rw [sound.released_settled leaves]
  exact Heap.holds_releaseAll (fun ref member =>
    sound.agrees.ledger.present ref (leaves.dead ref member).1) value

theorem Sound.origins_settled (tracked : ref ∈ session.settled.counter.ledger.tracked) :
    session.settled.origins[ref.id]? = session.origins[ref.id]? := by
  obtain ⟨before, kept⟩ := (sound.tracked_settled leaves).mp tracked
  rw [sound.named.settled.origins, if_neg (mt (sound.mem_collected leaves before).mp kept)]

end Settling

/-- A settle that succeeds leaves a sound session: what it has collected is not tracked any more, and
nothing is bound to it. -/
theorem Sound.settled {count : Nat} (sound : session.Sound)
    (done : (session.counter.settle session.heap).result = .ok count) : session.settled.Sound := by
  obtain ⟨refs, leaves⟩ := sound.counter.leaves done
  have forgets := sound.named.settled
  have agrees : session.settled.world.Sound [] := by
    rw [forgets.world]
    exact sound.counter.settle done
  refine ⟨agrees, fun name value found => ?_, forgets.named sound.named, fun ref tracked => ?_,
    fun number => ?_⟩
  · rw [sound.holds_settled leaves]
    exact sound.bound name value ((forgets.bindings name value).mp found).1
  · rw [sound.origins_settled leaves tracked]
    exact sound.known ref ((sound.tracked_settled leaves).mp tracked).1
  · exact (congrFun forgets.identify number).trans (sound.identify number)

theorem sound_session (settings : Settings) : settings.session.Sound where
  agrees := World.sound_world settings .absent
  bound name value found := by simp [Settings.session] at found
  named name ref found := by simp [Settings.session] at found
  known ref tracked := by simp [Settings.session, Settings.counter, Ledger.tracked] at tracked
  identify _ := rfl

end Session

end Reclaim
