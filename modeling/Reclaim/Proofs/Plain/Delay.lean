import Reclaim.Proofs.Replay.Conservation

/-! A plain heap from which some cells have been deleted early, beside one that still has them. Nothing
holds those cells, so no line that succeeds without them tells the heaps apart. The next settle deletes
them from the other heap too. -/

set_option autoImplicit false

namespace Reclaim

namespace Machine

variable {machine first second : Machine} {ids gone : List Ident} {names : List String} {id : Ident}

def namesOf (machine : Machine) (ids : List Ident) : List String :=
  ids.filterMap fun id => (machine.cells id).map (·.name)

theorem namesOf_congr {other : Machine} (same : ∀ id ∈ ids, machine.cells id = other.cells id) :
    machine.namesOf ids = other.namesOf ids := by
  apply List.filterMap_congr
  intro id member
  rw [same id member]

def Closed (machine : Machine) : Prop :=
  ∀ id, ∀ child ∈ machine.children id, ∀ inner, child.id? = some inner → inner ∈ machine.idents

theorem mem_idents_iff : id ∈ machine.idents ↔ id < machine.created ∧ (machine.cells id).isSome := by
  rw [idents, List.mem_filter, List.mem_range]

section Without

theorem cells_without : (machine.without ids).cells id = if id ∈ ids then none else machine.cells id :=
  rfl

theorem held_without : (machine.without ids).held id = if id ∈ ids then 0 else machine.held id := by
  unfold held
  rw [cells_without]
  split <;> rfl

theorem content_without :
    (machine.without ids).content id = if id ∈ ids then none else machine.content id := by
  unfold content
  rw [cells_without]
  split <;> rfl

theorem children_without :
    (machine.without ids).children id = if id ∈ ids then [] else machine.children id := by
  unfold children
  rw [content_without]
  split <;> rfl

theorem mem_idents_without : id ∈ (machine.without ids).idents ↔ id ∉ ids ∧ id ∈ machine.idents := by
  have created : (machine.without ids).created = machine.created := rfl
  rw [mem_idents_iff, mem_idents_iff, cells_without, created]
  split <;> simp [*]

theorem bindings_without {name : String} {value : Value} :
    (machine.without ids).bindings[name]? = some value ↔
      machine.bindings[name]? = some value ∧ ∀ id ∈ ids, value.id? ≠ some id := by
  rw [without, Std.ExtTreeMap.getElem?_filter', Option.filter_eq_some_iff]
  apply and_congr_right
  intro _
  cases same : value.id? with
  | none => simp
  | some other =>
    simp only [Option.any_some, Bool.not_eq_true', List.contains_eq_mem, decide_eq_false_iff_not,
      ne_eq, Option.some.injEq]
    constructor
    · rintro kept _ member rfl
      exact kept member
    · intro kept member
      exact kept other member rfl

theorem without_without {others : List Ident} :
    (machine.without ids).without others = machine.without (ids ++ others) := by
  apply Machine.ext
  · funext id
    simp only [cells_without, List.mem_append]
    by_cases member : id ∈ ids <;> simp [member]
  · rfl
  · apply Std.ExtTreeMap.ext_getElem?
    intro name
    apply Option.ext
    intro value
    simp only [bindings_without, List.mem_append, or_imp, forall_and, and_assoc]
  · rfl

theorem without_nil : machine.without [] = machine := by
  apply Machine.ext
  · funext id
    simp [cells_without]
  · rfl
  · apply Std.ExtTreeMap.ext_getElem?
    intro name
    apply Option.ext
    intro value
    simp [bindings_without]
  · rfl

end Without

/-- The second machine is without cells that nothing holds in the first. It has reported their names. -/
structure Lags (first : Machine) (gone : List Ident) (names : List String) (second : Machine) :
    Prop where
  deleted : second = first.without gone
  unheld : ∀ id ∈ gone, first.held id = 0
  present : ∀ id ∈ gone, id ∈ first.idents
  nodup : gone.Nodup
  named : (first.namesOf gone).Perm names

theorem Lags.refl : machine.Lags [] [] machine where
  deleted := without_nil.symm
  unheld _ member := nomatch member
  present _ member := nomatch member
  nodup := .nil
  named := .nil

section Changes

variable {name : String} {item : Value}

theorem Lags.frame (next : Machine) (lags : first.Lags gone names second)
    (kept : ∀ id ∈ gone, next.cells id = first.cells id) (created : first.created ≤ next.created) :
    next.Lags gone names (next.without gone) where
  deleted := rfl
  unheld id member := by
    rw [← lags.unheld id member, held, held, kept id member]
  present id member := by
    obtain ⟨below, present⟩ := mem_idents_iff.mp (lags.present id member)
    rw [mem_idents_iff, kept id member]
    exact ⟨Nat.lt_of_lt_of_le below created, present⟩
  nodup := lags.nodup
  named := namesOf_congr kept ▸ lags.named

theorem Lags.modify {change : Cell → Cell} (lags : first.Lags gone names second) (kept : id ∉ gone) :
    (first.modify id change).Lags gone names (second.modify id change) := by
  have untouched : ∀ other ∈ gone, (first.modify id change).cells other = first.cells other := by
    intro other member
    have apart : other ≠ id := fun same => kept (same ▸ member)
    exact if_neg apart
  have same : second.modify id change = (first.modify id change).without gone := by
    rw [lags.deleted]
    apply Machine.ext
    · funext other
      simp only [Machine.modify, without]
      by_cases here : other = id
      · simp [here, kept]
      · simp [here]
    · rfl
    · rfl
    · rfl
  rw [same]
  exact lags.frame _ untouched (Nat.le_refl _)

theorem Lags.addHolds {count : Nat} (lags : first.Lags gone names second)
    (kept : ∀ id ∈ gone, item.id? ≠ some id) :
    (first.addHolds count item).Lags gone names (second.addHolds count item) := by
  cases item with
  | scalar atom =>
    have moved := lags.frame (first.addHolds count (.scalar atom)) (fun _ _ => rfl) (Nat.le_refl _)
    rw [lags.deleted]
    exact moved
  | shared ref => exact lags.modify fun member => kept ref.id member rfl

theorem Lags.insert {value : Value} (name : String) (lags : first.Lags gone names second)
    (kept : ∀ id ∈ gone, value.id? ≠ some id) :
    (first.bind name value).Lags gone names (second.bind name value) := by
  have same : second.bind name value = (first.bind name value).without gone := by
    rw [lags.deleted]
    apply Machine.ext
    · rfl
    · rfl
    · apply Std.ExtTreeMap.ext_getElem?
      intro other
      apply Option.ext
      intro found
      rw [bindings_without]
      simp only [Machine.bind, Std.ExtTreeMap.getElem?_insert]
      split
      next =>
        constructor
        · rintro ⟨⟩
          exact ⟨rfl, kept⟩
        · exact And.left
      next => exact bindings_without
    · rfl
  rw [same]
  exact lags.frame _ (fun _ _ => rfl) (Nat.le_refl _)

theorem Lags.cells_eq (lags : first.Lags gone names second) :
    second.cells id = if id ∈ gone then none else first.cells id := by
  rw [lags.deleted]
  rfl

theorem Lags.created_eq (lags : first.Lags gone names second) : second.created = first.created := by
  rw [lags.deleted]
  rfl

theorem Lags.created_not_mem (lags : first.Lags gone names second) : first.created ∉ gone := by
  intro member
  exact Nat.lt_irrefl _ (mem_idents_iff.mp (lags.present _ member)).1

theorem Lags.create {content : Option Container} (lags : first.Lags gone names second)
    (ref : Ident → Ref) (fresh : (ref first.created).id = first.created) :
    (first.create ref name content).Lags gone names (second.create ref name content) := by
  have kept : ∀ id ∈ gone, id ≠ first.created := by
    rintro id member rfl
    exact lags.created_not_mem member
  have named : ∀ id ∈ gone, (Value.shared (ref first.created)).id? ≠ some id := by
    intro id member same
    exact kept id member (Option.some.inj same ▸ fresh)
  have same : second.create ref name content = (first.create ref name content).without gone := by
    have bound := congrArg Machine.bindings (lags.insert name named).deleted
    apply Machine.ext
    · funext id
      rw [cells_without]
      simp only [Machine.create, lags.created_eq, lags.cells_eq]
      by_cases here : id = first.created
      · simp [here, lags.created_not_mem]
      · simp only [if_neg here]
    · rw [lags.deleted]
      rfl
    · simp only [Machine.create, lags.created_eq]
      exact bound
    · simp only [Machine.create, lags.created_eq]
      rfl
  rw [same]
  exact lags.frame _ (fun id member => if_neg (kept id member)) (Nat.le_succ _)

end Changes

/-- What succeeds without the deleted cells succeeds with them, and still nothing holds them. -/
inductive Follows (gone : List Ident) (names : List String) :
    Except Fault Machine → Except Fault Machine → Prop where
  | failed (result : Except Fault Machine) (fault : Fault) : Follows gone names result (.error fault)
  | done {next next' : Machine} (lags : next.Lags gone names next') :
      Follows gone names (.ok next) (.ok next')

section Lines

variable {line line' : Nat} {name : String} {item : Value}

theorem Lags.removeHold (lags : first.Lags gone names second) (kept : ∀ id ∈ gone, item.id? ≠ some id) :
    Follows gone names (first.removeHold line item) (second.removeHold line' item) := by
  cases item with
  | scalar atom =>
    have moved := lags.frame { first with scalars := first.scalars - 1 } (fun _ _ => rfl)
      (Nat.le_refl _)
    rw [lags.deleted]
    exact .done moved
  | shared ref =>
    have untouched : ref.id ∉ gone := fun member => kept ref.id member rfl
    have held : second.held ref.id = first.held ref.id := by
      rw [lags.deleted, held_without, if_neg untouched]
    simp only [Machine.removeHold, held]
    split
    · exact .failed _ _
    · exact .done (lags.modify untouched)

theorem Lags.lookup {more more' : Value → Except Fault Machine} (lags : first.Lags gone names second)
    (follows : ∀ item : Value, (∀ id ∈ gone, item.id? ≠ some id) →
      Follows gone names (more item) (more' item)) :
    Follows gone names (first.lookup line name >>= more) (second.lookup line' name >>= more') := by
  cases found : second.lookup line' name with
  | error fault => exact .failed _ fault
  | ok item =>
    have named := lookup_ok found
    rw [lags.deleted, bindings_without] at named
    have same : first.lookup line name = .ok item := by
      simp only [Machine.lookup, named.1]
    rw [same]
    exact follows item named.2

theorem Lags.container {expected : Expected} {more more' : Ident × Container → Except Fault Machine}
    (lags : first.Lags gone names second)
    (follows : ∀ id container, id ∉ gone → Follows gone names (more (id, container)) (more' (id, container))) :
    Follows gone names (first.container line name expected >>= more)
      (second.container line' name expected >>= more') := by
  unfold Machine.container
  rw [bind_assoc, bind_assoc]
  apply lags.lookup
  intro item kept
  cases item with
  | scalar atom => exact .failed _ _
  | shared ref =>
    have untouched : ref.id ∉ gone := fun member => kept ref.id member rfl
    have content : second.content ref.id = first.content ref.id := by
      rw [lags.deleted, content_without, if_neg untouched]
    have inner : (Value.shared ref).id? = some ref.id := rfl
    simp only [inner, Option.bind_some, content]
    cases first.content ref.id with
    | none => exact .failed _ _
    | some container =>
      simp only [Option.map_some]
      split
      · exact follows ref.id container untouched
      · exact .failed _ _

/-- A line that is not a settle, however numbered, finds what it needs without the deleted cells or
fails. -/
theorem Lags.follows_step {step step' : ScriptLine} (lags : first.Lags gone names second)
    (budget budget' : Budget) (same : step'.op = step.op) (busy : step.op ≠ .settle) :
    ∃ result result', first.step budget step = result.map (fun next => (next, none)) ∧
      second.step budget' step' = result'.map (fun next => (next, none)) ∧
      Follows gone names result result' := by
  obtain ⟨line, op⟩ := step
  obtain ⟨line', op'⟩ := step'
  obtain rfl : op' = op := same
  cases op' with
  | settle => exact absurd rfl busy
  | newContainer kind name =>
    exact ⟨_, _, rfl, rfl, .done (lags.create .container rfl)⟩
  | newBuffer name size => exact ⟨_, _, rfl, rfl, .done (lags.create .buffer rfl)⟩
  | int name value => exact ⟨_, _, rfl, rfl, .done (lags.insert name fun _ _ => nofun)⟩
  | bytes name text => exact ⟨_, _, rfl, rfl, .done (lags.insert name fun _ _ => nofun)⟩
  -- A name that is bound in the second is bound to the same in the first.
  | push name count =>
    refine ⟨_, _, rfl, rfl, lags.lookup ?_⟩
    exact fun item kept => .done (lags.addHolds kept)
  | pop name =>
    refine ⟨_, _, rfl, rfl, lags.lookup ?_⟩
    exact fun item kept => lags.removeHold kept
  | append owner child =>
    refine ⟨_, _, rfl, rfl, lags.container ?_⟩
    intro id container untouched
    apply lags.lookup
    exact fun item _ => .done (lags.modify untouched)
  | set owner index child =>
    refine ⟨_, _, rfl, rfl, lags.container ?_⟩
    intro id container untouched
    apply lags.lookup
    intro item _
    cases container.set? index item with
    | none => exact .failed _ _
    | some pair => exact .done (lags.modify untouched)
  | put owner key child =>
    refine ⟨_, _, rfl, rfl, lags.container ?_⟩
    intro id container untouched
    apply lags.lookup
    exact fun item _ => .done (lags.modify untouched)
  | remove owner index =>
    refine ⟨_, _, rfl, rfl, lags.container ?_⟩
    intro id container untouched
    simp only
    cases container.remove? index with
    | none => exact .failed _ _
    | some pair => exact .done (lags.modify untouched)
  | delete owner key =>
    refine ⟨_, _, rfl, rfl, lags.container ?_⟩
    intro id container untouched
    simp only
    cases container.removeKey? (encodeText key) with
    | none => exact .failed _ _
    | some pair => exact .done (lags.modify untouched)
  | clear owner =>
    refine ⟨_, _, rfl, rfl, lags.container ?_⟩
    exact fun id container untouched => .done (lags.modify untouched)

end Lines

section Settles

theorem mem_graph : id ∈ machine.graph.nodes ↔ id ∈ machine.idents := by
  rw [graph, Std.ExtTreeSet.mem_ofList, List.contains_iff_mem]

variable {root last : Ident}

theorem Lags.mem_idents (lags : first.Lags gone names second) :
    id ∈ second.idents ↔ id ∉ gone ∧ id ∈ first.idents := by
  rw [lags.deleted, mem_idents_without]

theorem Lags.held_eq (lags : first.Lags gone names second) : second.held id = first.held id := by
  rw [lags.deleted, held_without]
  split
  next member => exact (lags.unheld id member).symm
  next => rfl

theorem Lags.successors_eq (lags : first.Lags gone names second) (present : id ∈ second.idents) :
    second.graph.successors id = first.graph.successors id := by
  have kept : id ∉ gone := (lags.mem_idents.mp present).1
  simp only [graph, lags.deleted, children_without, if_neg kept]

theorem Lags.reach_of_reach (lags : first.Lags gone names second)
    (path : second.graph.Reach root last) : first.graph.Reach root last := by
  have present : ∀ id ∈ second.graph.nodes, id ∈ first.graph.nodes := by
    intro id member
    rw [mem_graph] at member ⊢
    exact (lags.mem_idents.mp member).2
  induction path with
  | refl member => exact .refl (present root member)
  | tail _ edge ih =>
    have listed := edge.listed
    rw [lags.successors_eq (mem_graph.mp edge.source_mem)] at listed
    exact ih.tail ⟨present _ edge.source_mem, present _ edge.target_mem, listed⟩

theorem Lags.reach_without (lags : first.Lags gone names second) (closed : second.Closed)
    (rooted : root ∈ second.idents) (path : first.graph.Reach root last) :
    second.graph.Reach root last := by
  induction path with
  | refl => exact .refl (mem_graph.mpr rooted)
  | @tail middle last _ edge ih =>
    have present := ih.target_mem
    have listed := edge.listed
    rw [← lags.successors_eq (mem_graph.mp present)] at listed
    obtain ⟨child, contained, inner⟩ := List.mem_filterMap.mp listed
    have kept : last ∈ second.idents := closed middle child contained last inner
    exact ih.tail ⟨present, mem_graph.mpr kept, listed⟩

theorem Lags.live_iff (lags : first.Lags gone names second) (closed : second.Closed) :
    first.Live id ↔ second.Live id := by
  constructor
  · rintro ⟨root, rooted, path⟩
    obtain ⟨present, held⟩ := List.mem_filter.mp rooted
    have kept : root ∉ gone := by
      intro member
      rw [lags.unheld root member] at held
      cases held
    have rooted : root ∈ second.idents := lags.mem_idents.mpr ⟨kept, present⟩
    refine ⟨root, List.mem_filter.mpr ⟨rooted, ?_⟩, lags.reach_without closed rooted path⟩
    rw [lags.held_eq]
    exact held
  · rintro ⟨root, rooted, path⟩
    obtain ⟨present, held⟩ := List.mem_filter.mp rooted
    rw [lags.held_eq] at held
    have rooted : root ∈ first.roots := List.mem_filter.mpr ⟨(lags.mem_idents.mp present).2, held⟩
    exact ⟨root, rooted, lags.reach_of_reach path⟩

theorem mem_dead : id ∈ machine.dead ↔ id ∈ machine.idents ∧ ¬machine.Live id := by
  rw [dead, List.mem_filter, decide_eq_true_iff]

theorem nodup_dead : machine.dead.Nodup := nodup_idents.filter _

theorem held_of_mem_dead (member : id ∈ machine.dead) : machine.held id = 0 := by
  obtain ⟨present, dead⟩ := mem_dead.mp member
  apply Nat.eq_zero_of_not_pos
  intro held
  have rooted : id ∈ machine.roots := List.mem_filter.mpr ⟨present, decide_eq_true held⟩
  exact dead ⟨id, rooted, .refl (mem_graph.mpr present)⟩

theorem Lags.mem_dead (lags : first.Lags gone names second) (closed : second.Closed) :
    id ∈ first.dead ↔ id ∈ gone ∨ id ∈ second.dead := by
  rw [Machine.mem_dead, Machine.mem_dead, lags.live_iff closed, lags.mem_idents]
  by_cases member : id ∈ gone
  · have unlive : ¬second.Live id := by
      rintro ⟨root, _, path⟩
      exact (lags.mem_idents.mp (mem_graph.mp path.target_mem)).1 member
    simp [member, unlive, lags.present id member]
  · simp [member]

theorem Lags.nodup_append (lags : first.Lags gone names second) : (gone ++ second.dead).Nodup := by
  apply List.nodup_append'.mpr ⟨lags.nodup, nodup_dead, ?_⟩
  intro id member dead
  exact (lags.mem_idents.mp (Machine.mem_dead.mp dead).1).1 member

theorem Lags.dead_perm (lags : first.Lags gone names second) (closed : second.Closed) :
    first.dead.Perm (gone ++ second.dead) := by
  apply (List.perm_ext_iff_of_nodup nodup_dead lags.nodup_append).mpr
  intro id
  rw [lags.mem_dead closed, List.mem_append]

theorem Lags.without_dead (lags : first.Lags gone names second) (closed : second.Closed) :
    first.without first.dead = second.without second.dead := by
  have deleted : second.without second.dead = (first.without gone).without second.dead :=
    congrArg (·.without second.dead) lags.deleted
  rw [deleted, without_without]
  apply without_congr
  intro id
  exact (lags.dead_perm closed).mem_iff

theorem Lags.namesOf_dead (lags : first.Lags gone names second) :
    first.namesOf second.dead = second.namesOf second.dead := by
  apply namesOf_congr
  intro id dead
  have kept : id ∉ gone := (lags.mem_idents.mp (Machine.mem_dead.mp dead).1).1
  rw [lags.cells_eq, if_neg kept]

/-- It reports in the first what has been deleted from the second, before or now. -/
theorem Lags.names_perm (lags : first.Lags gone names second) (closed : second.Closed) :
    (sortNames (first.namesOf first.dead)).Perm
      (names ++ sortNames (second.namesOf second.dead)) := by
  have perm : (first.namesOf first.dead).Perm _ := (lags.dead_perm closed).filterMap _
  rw [List.filterMap_append] at perm
  apply (sortNames_perm _).trans (perm.trans _)
  apply lags.named.append
  rw [← lags.namesOf_dead]
  exact (sortNames_perm _).symm

theorem Lags.settle (lags : first.Lags gone names second) :
    first.Lags (gone ++ second.dead) (names ++ sortNames (second.namesOf second.dead))
      (second.without second.dead) where
  deleted := by rw [← without_without, ← lags.deleted]
  unheld id member := by
    rcases List.mem_append.mp member with member | dead
    · exact lags.unheld id member
    · rw [← lags.held_eq]
      exact held_of_mem_dead dead
  present id member := by
    rcases List.mem_append.mp member with member | dead
    · exact lags.present id member
    · exact (lags.mem_idents.mp (Machine.mem_dead.mp dead).1).2
  nodup := lags.nodup_append
  named := by
    rw [namesOf, List.filterMap_append]
    apply lags.named.append
    rw [← lags.namesOf_dead]
    exact (sortNames_perm _).symm

theorem settle_ok {next : Machine} {budget : Budget} {line : Nat} {report : Option Report}
    (settled : machine.settle budget line = .ok (next, report)) :
    next = machine.without machine.dead ∧ report = some
      { line, count := next.total.toNat, retained := next.idents.length
        removed := sortNames (machine.namesOf machine.dead) } := by
  obtain ⟨_, _, same⟩ := ok_of_map settled
  obtain ⟨rfl, rfl⟩ := Prod.mk.inj same
  exact ⟨rfl, rfl⟩

end Settles

end Machine

end Reclaim
