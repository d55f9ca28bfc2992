import Reclaim.Proofs.Graph.Partition

/-! The search for components as a recursion: to explore a node is to explore the successors that have not
been found, one after another, and then to take the component of the node off the stack if the node is the
first that was found of it. The search that keeps its calls on a list of frames does the same moves. -/

set_option autoImplicit false

namespace Reclaim

/-- For each node that has been found, `index` holds its discovery number and `low` the least number seen from
it. The stack lists the found nodes without a component, latest first. -/
structure Recursion where
  index : Search.Numbers := ∅
  low : Search.Numbers := ∅
  discovered : Nat := 0
  stack : List Node := []
  components : List Component := []

namespace Recursion

def numberOf (state : Recursion) (node : Node) : Nat := state.index.getD node 0

def lowOf (state : Recursion) (node : Node) : Nat := state.low.getD node 0

def enter (node : Node) (state : Recursion) : Recursion :=
  { state with
    index := state.index.insert node state.discovered
    low := state.low.insert node state.discovered
    discovered := state.discovered + 1
    stack := node :: state.stack }

def lower (node : Node) (number : Nat) (state : Recursion) : Recursion :=
  { state with low := state.low.insert node (min (state.lowOf node) number) }

def pop (root : Node) : List Node → Component × List Node
  | [] => ([], [])
  | member :: stack =>
    if member = root then ([member], stack)
    else ((pop root stack).map (member :: ·) id)

def close (node : Node) (state : Recursion) : Recursion :=
  if state.lowOf node = state.numberOf node then
    let (members, stack) := pop node state.stack
    { state with stack, components := state.components ++ [members] }
  else
    state

def unfound (graph : Digraph) (state : Recursion) : NodeSet :=
  graph.nodes.filter fun node => state.index[node]?.isNone

variable {graph : Digraph} {state : Recursion} {node other : Node}

theorem mem_unfound :
    node ∈ state.unfound graph ↔ node ∈ graph.nodes ∧ state.index[node]? = none := by
  simp [unfound, Std.ExtTreeSet.mem_filter, Std.ExtTreeSet.get_eq]

theorem unfound_enter : (state.enter node).unfound graph = (state.unfound graph).erase node := by
  apply Std.ExtTreeSet.ext_mem
  intro other
  rw [NodeSet.mem_erase_iff, mem_unfound, mem_unfound, enter, getElem?_insert_key]
  by_cases here : node = other
  · simp [here]
  · simp [here, Ne.symm here]

theorem size_unfound_enter (fresh : node ∈ state.unfound graph) :
    ((state.enter node).unfound graph).size < (state.unfound graph).size := by
  rw [unfound_enter, ← NodeSet.size_erase_add_one fresh]
  exact Nat.lt_succ_self _

@[simp] theorem index_close (node : Node) : (state.close node).index = state.index := by
  unfold close
  split <;> rfl

/-- Look at the successors of a node that are left, one after another, and then return from the node. No
more nodes are unfound after that. -/
def explore (graph : Digraph) (node : Node) (rest : List Node) (state : Recursion) :
    { next : Recursion // (next.unfound graph).size ≤ (state.unfound graph).size } :=
  match rest with
  | [] => ⟨state.close node, by simp [unfound]⟩
  | successor :: rest =>
    if absent : successor ∉ graph.nodes then
      explore graph node rest state
    else if fresh : state.index[successor]? = none then
      have fewer := size_unfound_enter (mem_unfound.mpr ⟨not_not.mp absent, fresh⟩)
      let ⟨child, fromChild⟩ := explore graph successor (graph.successors successor) (state.enter successor)
      let lowered := child.lower node (child.lowOf successor)
      have fewer : (lowered.unfound graph).size < (state.unfound graph).size :=
        Nat.lt_of_le_of_lt fromChild fewer
      let ⟨next, fromNext⟩ := explore graph node rest lowered
      ⟨next, Nat.le_trans fromNext (Nat.le_of_lt fewer)⟩
    else if successor ∈ state.stack then
      let ⟨next, fromNext⟩ := explore graph node rest (state.lower node (state.numberOf successor))
      ⟨next, fromNext⟩
    else
      explore graph node rest state
termination_by ((state.unfound graph).size, rest.length)

def connect (graph : Digraph) (node : Node) (state : Recursion) : Recursion :=
  (explore graph node (graph.successors node) (state.enter node)).1

def visit (graph : Digraph) (state : Recursion) (root : Node) : Recursion :=
  if state.index[root]? = none then state.connect graph root else state

end Recursion

def Digraph.recursiveComponents (graph : Digraph) : List Component :=
  (graph.nodes.toList.foldl (Recursion.visit graph) {}).components

namespace Recursion

variable {graph : Digraph} {state : Recursion} {node other successor : Node} {rest : List Node}

/-- What exploring a node comes to, by what the first of the successors that are left is. -/
inductive Explores (graph : Digraph) : Node → List Node → Recursion → Recursion → Prop where
  | close {node : Node} {state : Recursion} : Explores graph node [] state (state.close node)
  | absent {node successor : Node} {rest : List Node} {state next : Recursion} :
      successor ∉ graph.nodes → Explores graph node rest state next →
      Explores graph node (successor :: rest) state next
  | fresh {node successor : Node} {rest : List Node} {state child next : Recursion} :
      successor ∈ state.unfound graph →
      Explores graph successor (graph.successors successor) (state.enter successor) child →
      Explores graph node rest (child.lower node (child.lowOf successor)) next →
      Explores graph node (successor :: rest) state next
  | stacked {node successor : Node} {rest : List Node} {state next : Recursion} :
      successor ∈ state.stack → successor ∉ state.unfound graph →
      Explores graph node rest (state.lower node (state.numberOf successor)) next →
      Explores graph node (successor :: rest) state next
  | done {node successor : Node} {rest : List Node} {state next : Recursion} :
      successor ∉ state.stack → successor ∉ state.unfound graph → Explores graph node rest state next →
      Explores graph node (successor :: rest) state next

theorem explores (graph : Digraph) (node : Node) (rest : List Node) (state : Recursion) :
    Explores graph node rest state (explore graph node rest state).1 := by
  fun_induction explore graph node rest state with
  | case1 node state => exact .close
  | case2 node state successor rest absent ih => exact .absent absent ih
  | case3 node state successor rest present unnumbered _ child _ explored lowered _ next _ later ihChild ih =>
    rw [explored] at ihChild
    rw [later] at ih
    exact .fresh (mem_unfound.mpr ⟨not_not.mp present, unnumbered⟩) ihChild ih
  | case4 node state successor rest present numbered stacked next _ later ih =>
    rw [later] at ih
    exact .stacked stacked (fun fresh => numbered (mem_unfound.mp fresh).2) ih
  | case5 node state successor rest present numbered apart ih =>
    exact .done apart (fun fresh => numbered (mem_unfound.mp fresh).2) ih

/-- The search with frames has found the same nodes, with the same numbers, and has the same components. -/
structure Mirrors (graph : Digraph) (search : Search) (state : Recursion) : Prop where
  unvisited : search.unvisited = state.unfound graph
  number : ∀ node ∈ state.stack, search.number[node]? = state.index[node]?
  discovered : search.discovered = state.discovered
  opened : search.opened = state.stack
  components : search.components.toList = state.components

variable {search : Search} {next : Recursion} {low : Nat} {frames : List Frame}

theorem mirrors_start (graph : Digraph) : Mirrors graph (.start graph) {} where
  unvisited := by
    apply Std.ExtTreeSet.ext_mem
    intro node
    simp [mem_unfound, Search.start]
  number node member := nomatch member
  discovered := rfl
  opened := rfl
  components := rfl

theorem Mirrors.reframe (mirrors : Mirrors graph search state) (frames : List Frame) :
    Mirrors graph { search with frames } state :=
  { mirrors with }

theorem Mirrors.lower (mirrors : Mirrors graph search state) (node : Node) (number : Nat) :
    Mirrors graph search (state.lower node number) :=
  { mirrors with }

theorem Mirrors.enter (mirrors : Mirrors graph search state) (node : Node) :
    Mirrors graph (search.enter graph node) (state.enter node) where
  unvisited := by rw [unfound_enter, ← mirrors.unvisited]; rfl
  number other member := by
    simp only [Search.enter, Recursion.enter, getElem?_insert_key, mirrors.discovered]
    by_cases here : node = other
    · rw [if_pos here, if_pos here]
    · rw [if_neg here, if_neg here]
      exact mirrors.number other ((List.mem_cons.mp member).resolve_left (Ne.symm here))
  discovered := congrArg (· + 1) mirrors.discovered
  opened := congrArg (node :: ·) mirrors.opened
  components := mirrors.components

theorem pop_append {segment below : List Node} (apart : node ∉ segment) :
    pop node (segment ++ node :: below) = (segment ++ [node], below) := by
  induction segment with
  | nil => simp [pop]
  | cons top segment ih =>
    obtain ⟨different, apart⟩ := not_or.mp (mt List.mem_cons.mpr apart)
    simp [pop, Ne.symm different, ih apart]

theorem Mirrors.complete {segment below : List Node} (mirrors : Mirrors graph search state)
    (parts : search.opened = segment ++ node :: below) (nodup : search.opened.Nodup) :
    Mirrors graph (search.complete node)
      { state with stack := below, components := state.components ++ [segment ++ [node]] } := by
  have joined : search.opened = (segment ++ [node]) ++ below := by simp [parts]
  obtain ⟨membersNodup, _, apart⟩ := List.nodup_append.mp (joined ▸ nodup)
  have once : node ∉ segment := fun member =>
    (List.nodup_append.mp membersNodup).2.2 node member node (by simp) rfl
  rw [Search.complete_eq parts once]
  constructor
  case unvisited => exact mirrors.unvisited
  case number =>
    -- The search forgets the numbers of the members; the others are those that are still on the stack.
    intro other member
    have stays : other ∉ segment ++ [node] := fun popped => apart other popped other member rfl
    rw [Search.number_foldl_erase, if_neg stays]
    exact mirrors.number other (mirrors.opened ▸ joined ▸ List.mem_append_right _ member)
  case discovered => exact mirrors.discovered
  case opened => rfl
  case components => rw [Array.toList_push, mirrors.components]

theorem Mirrors.numbered (mirrors : Mirrors graph search state) (sound : search.Sound graph)
    (member : node ∈ search.opened) :
    state.index[node]? ≠ none ∧ search.number[node]? = some (state.numberOf node) := by
  obtain ⟨own, numbered, _⟩ := sound.numbered node member
  have found : state.index[node]? = some own :=
    (mirrors.number node (mirrors.opened ▸ member)).symm.trans numbered
  rw [numberOf, Std.ExtTreeMap.getD_eq_getD_getElem?, numbered, found]
  exact ⟨Option.some_ne_none own, rfl⟩

theorem Mirrors.close (mirrors : Mirrors graph search state) (sound : search.Sound graph)
    (framed : search.frames = ⟨node, low, []⟩ :: frames) (known : state.lowOf node = low) :
    ∃ later, search.step graph = some later ∧ Mirrors graph later (state.close node) ∧
      later.frames = frames.modifyHead fun frame => { frame with low := min frame.low low } := by
  obtain ⟨segment, below, parts, _⟩ := (framed ▸ sound.stacked).parts
  have opened : node ∈ search.opened := by simp [parts]
  obtain ⟨_, numbered⟩ := mirrors.numbered sound opened
  unfold Search.step Recursion.close
  rw [framed, known]
  simp only [numbered, Option.some.injEq]
  by_cases root : low = state.numberOf node
  · have once : node ∉ segment := fun member =>
      (List.nodup_append.mp (parts ▸ sound.nodup_opened)).2.2 node member node (by simp) rfl
    have popped : pop node state.stack = (segment ++ [node], below) := by
      rw [← mirrors.opened, parts]
      exact pop_append once
    rw [if_pos root.symm, if_pos root, popped]
    exact ⟨_, rfl, ((mirrors.reframe frames).complete parts sound.nodup_opened).reframe _, rfl⟩
  · rw [if_neg (Ne.symm root), if_neg root]
    exact ⟨_, rfl, mirrors.reframe _, rfl⟩

structure Keeps (node : Node) (state next : Recursion) : Prop where
  found : ∀ other : Node, state.index[other]? ≠ none → next.index[other]? ≠ none
  low : ∀ other : Node, state.index[other]? ≠ none → other ≠ node → next.lowOf other = state.lowOf other

theorem lowOf_enter : (state.enter node).lowOf other =
    if node = other then state.discovered else state.lowOf other := by
  simp [enter, lowOf, Std.ExtTreeMap.getD_insert]

theorem lowOf_lower {number : Nat} : (state.lower node number).lowOf other =
    if node = other then min (state.lowOf node) number else state.lowOf other := by
  simp [lower, lowOf, Std.ExtTreeMap.getD_insert]

theorem Explores.keeps (explores : Explores graph node rest state next) : Keeps node state next := by
  induction explores with
  | @close node state =>
    refine ⟨fun other found => by rwa [index_close], fun other _ _ => ?_⟩
    unfold Recursion.close
    split <;> rfl
  | absent _ _ ih => exact ih
  | @fresh node successor rest state child next unfound _ _ ihChild ih =>
    have apart {other : Node} (found : state.index[other]? ≠ none) : successor ≠ other :=
      fun same => found (same ▸ (mem_unfound.mp unfound).2)
    have entered {other : Node} (found : state.index[other]? ≠ none) :
        (state.enter successor).index[other]? ≠ none := by
      simpa [enter, getElem?_insert_key, apart found] using found
    have inner {other : Node} (found : state.index[other]? ≠ none) := ihChild.found other (entered found)
    refine ⟨fun other found => ih.found other (inner found), fun other found different => ?_⟩
    rw [ih.low other (inner found) different, lowOf_lower, if_neg (Ne.symm different),
      ihChild.low other (entered found) (apart found).symm, lowOf_enter, if_neg (apart found)]
  | stacked _ _ _ ih =>
    refine ⟨ih.found, fun other found different => ?_⟩
    rw [ih.low other found different, lowOf_lower, if_neg (Ne.symm different)]
  | done _ _ _ ih => exact ih

theorem Mirrors.skip (mirrors : Mirrors graph search state) (sound : search.Sound graph)
    (framed : search.frames = ⟨node, low, successor :: rest⟩ :: frames)
    (visited : successor ∉ search.unvisited) (apart : successor ∉ state.stack) :
    search.step graph = some { search with frames := ⟨node, low, rest⟩ :: frames } := by
  have unnumbered : search.number[successor]? = none := by
    cases numbered : search.number[successor]? with
    | none => rfl
    | some own => exact absurd (mirrors.opened ▸ sound.opened_of_number successor own numbered) apart
  unfold Search.step
  rw [framed]
  simp only [if_neg visited, unnumbered]

/-- The search runs on until the frame of a node has returned. Then it has found what the recursion has, and
the frame below has seen what was seen from the node. -/
theorem Explores.run (explores : Explores graph node rest state next) (mirrors : Mirrors graph search state)
    (sound : search.Sound graph) (framed : search.frames = ⟨node, low, rest⟩ :: frames)
    (known : state.lowOf node = low) :
    ∃ later, search.run graph = later.run graph ∧ later.Sound graph ∧ Mirrors graph later next ∧
      later.frames = frames.modifyHead fun frame => { frame with low := min frame.low (next.lowOf node) } := by
  induction explores generalizing search low frames with
  | @close node state =>
    obtain ⟨later, stepped, mirrors, returned⟩ := mirrors.close sound framed known
    have same : (state.close node).lowOf node = low := by
      rw [← known, Recursion.close]
      split <;> rfl
    exact ⟨later, Search.run_of_step stepped, sound.move (Search.move_of_step stepped), mirrors,
      same ▸ returned⟩
  -- A node that is not in the graph is never unvisited and never on the stack.
  | absent absent _ ih =>
    have stepped := mirrors.skip sound framed (fun white => absent (sound.unvisited_mem _ white))
      fun member => absent (sound.opened_mem _ (mirrors.opened ▸ member)).1
    obtain ⟨later, ran, rest⟩ := ih (mirrors.reframe _) (sound.move (Search.move_of_step stepped)) rfl known
    exact ⟨later, (Search.run_of_step stepped).trans ran, rest⟩
  | @fresh node successor rest state child next unfound first _ ihChild ih =>
    have white : successor ∈ search.unvisited := mirrors.unvisited ▸ unfound
    have stepped : search.step graph =
        some ({ search with frames := ⟨node, low, rest⟩ :: frames }.enter graph successor) := by
      unfold Search.step
      rw [framed]
      simp only [if_pos white]
    have entered : (state.enter successor).lowOf successor = search.discovered := by
      rw [lowOf_enter, if_pos rfl, mirrors.discovered]
    obtain ⟨middle, ranChild, soundChild, mirrorsChild, returned⟩ :=
      ihChild ((mirrors.reframe _).enter successor) (sound.move (Search.move_of_step stepped)) rfl entered
    -- The node itself was found before its successor, so its own number is as it was.
    have kept : child.lowOf node = low := by
      obtain ⟨segment, below, parts, _⟩ := (framed ▸ sound.stacked).parts
      have member : node ∈ search.opened := by simp [parts]
      have apart : successor ≠ node := fun same => (sound.opened_mem node member).2 (same ▸ white)
      have found : (state.enter successor).index[node]? ≠ none := by
        simpa [enter, getElem?_insert_key, apart] using (mirrors.numbered sound member).1
      rw [first.keeps.low node found (Ne.symm apart), lowOf_enter, if_neg apart, known]
    obtain ⟨later, ran, rest⟩ := ih (mirrorsChild.lower node (child.lowOf successor)) soundChild returned
      (by rw [lowOf_lower, if_pos rfl, kept])
    exact ⟨later, (Search.run_of_step stepped).trans (ranChild.trans ran), rest⟩
  | @stacked node successor rest state next member found _ ih =>
    have visited : successor ∉ search.unvisited := mirrors.unvisited ▸ found
    obtain ⟨_, numbered⟩ := mirrors.numbered sound (mirrors.opened ▸ member)
    have stepped : search.step graph =
        some { search with frames := ⟨node, min low (state.numberOf successor), rest⟩ :: frames } := by
      unfold Search.step
      rw [framed]
      simp only [if_neg visited, numbered]
      rfl
    obtain ⟨later, ran, rest⟩ := ih ((mirrors.reframe _).lower node _)
      (sound.move (Search.move_of_step stepped)) rfl (by rw [lowOf_lower, if_pos rfl, known])
    exact ⟨later, (Search.run_of_step stepped).trans ran, rest⟩
  | done apart found _ ih =>
    have stepped := mirrors.skip sound framed (mirrors.unvisited ▸ found) apart
    obtain ⟨later, ran, rest⟩ := ih (mirrors.reframe _) (sound.move (Search.move_of_step stepped)) rfl known
    exact ⟨later, (Search.run_of_step stepped).trans ran, rest⟩

theorem Mirrors.visit (mirrors : Mirrors graph search state) (sound : search.Sound graph)
    (idle : search.frames = []) (present : node ∈ graph.nodes) :
    Mirrors graph (search.visit graph node) (state.visit graph node) := by
  unfold Search.visit Recursion.visit
  by_cases fresh : state.index[node]? = none
  · have white : node ∈ search.unvisited := mirrors.unvisited ▸ mem_unfound.mpr ⟨present, fresh⟩
    rw [if_pos fresh, if_pos white]
    have entered : (state.enter node).lowOf node = search.discovered := by
      rw [lowOf_enter, if_pos rfl, mirrors.discovered]
    obtain ⟨later, ran, _, mirrors, returned⟩ :=
      (explores graph node (graph.successors node) (state.enter node)).run (mirrors.enter node)
        (sound.enter white (sound.stacked_insert white) (by simp [idle])) rfl entered
    have stuck : later.step graph = none := by
      unfold Search.step
      rw [returned, idle]
      rfl
    rw [ran, Search.run_of_stuck stuck]
    exact mirrors
  · have visited : node ∉ search.unvisited := fun white =>
      fresh (mem_unfound.mp (mirrors.unvisited ▸ white)).2
    rw [if_neg fresh, if_neg visited]
    exact mirrors

theorem Mirrors.visitAll {roots : List Node} (mirrors : Mirrors graph search state)
    (sound : search.Sound graph) (idle : search.frames = []) (present : ∀ root ∈ roots, root ∈ graph.nodes) :
    Mirrors graph (roots.foldl (Search.visit graph) search) (roots.foldl (Recursion.visit graph) state) := by
  induction roots generalizing search state with
  | nil => exact mirrors
  | cons root roots ih =>
    obtain ⟨here, others⟩ := List.forall_mem_cons.mp present
    obtain ⟨next, idle', _⟩ := sound.visit root idle
    exact ih (mirrors.visit sound idle here) next idle' others

end Recursion

/-- The search with frames and the recursion give the same components, in the same order. -/
theorem Digraph.components_eq_recursiveComponents (graph : Digraph) :
    graph.components = graph.recursiveComponents :=
  ((Recursion.mirrors_start graph).visitAll (Search.sound_start graph) rfl
    fun _ => Std.ExtTreeSet.mem_toList.mp).components

end Reclaim
