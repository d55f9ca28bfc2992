import Reclaim.Graph.Digraph

/-! Strongly connected components by one depth-first search whose calls are kept on an
explicit list of frames. A component is completed only after every other component it
reaches, so the list of components is a reverse topological order. -/

set_option autoImplicit false

namespace Reclaim

abbrev Component := List Node

/-- A node under examination: the successors still to look at, and the least discovery
number among the open nodes found from it so far. -/
structure Frame where
  node : Node
  low : Nat
  rest : List Node

/-- `opened` lists the discovered nodes whose component is not complete, latest first, and
`number` holds exactly their discovery numbers. -/
structure Search where
  unvisited : NodeSet
  number : Std.ExtTreeMap Node Nat compare
  discovered : Nat
  opened : List Node
  frames : List Frame
  components : Array Component

namespace Search

def start (graph : Digraph) : Search where
  unvisited := graph.nodes
  number := ∅
  discovered := 0
  opened := []
  frames := []
  components := #[]

def enter (graph : Digraph) (node : Node) (search : Search) : Search :=
  { search with
    unvisited := search.unvisited.erase node
    number := search.number.insert node search.discovered
    discovered := search.discovered + 1
    opened := node :: search.opened
    frames := ⟨node, search.discovered, graph.successors node⟩ :: search.frames }

def complete (node : Node) (search : Search) : Search :=
  let members := search.opened.takeWhile (· != node) ++ [node]
  { search with
    number := members.foldl (·.erase ·) search.number
    opened := (search.opened.dropWhile (· != node)).tail
    components := search.components.push members }

def lower (low : Nat) (search : Search) : Search :=
  { search with frames := search.frames.modifyHead fun frame => { frame with low := min frame.low low } }

/-- Look at one successor of the top frame, or return from it. An unvisited successor is
entered, an open one lowers the frame, and any other is passed over. -/
def step (graph : Digraph) (search : Search) : Option Search :=
  match search.frames with
  | [] => none
  | ⟨node, low, successor :: rest⟩ :: frames =>
    let search := { search with frames := ⟨node, low, rest⟩ :: frames }
    if successor ∈ search.unvisited then
      some (search.enter graph successor)
    else
      match search.number[successor]? with
      | some number => some (search.lower number)
      | none => some search
  | ⟨node, low, []⟩ :: frames =>
    let search := { search with frames }
    let search := if search.number[node]? = some low then search.complete node else search
    some (search.lower low)

def pending (search : Search) : Nat :=
  search.frames.foldr (fun frame more => frame.rest.length + 1 + more) 0

def width (graph : Digraph) (search : Search) : Nat :=
  search.unvisited.toList.foldr (fun node widest => max (graph.successors node).length widest) 0

/-- A bound on the steps left: entering a node costs its successors and its return. -/
def remaining (graph : Digraph) (search : Search) : Nat :=
  search.unvisited.size * (search.width graph + 2) + search.pending

@[simp] theorem pending_lower (low : Nat) (search : Search) :
    (search.lower low).pending = search.pending := by
  unfold pending lower
  cases search.frames <;> rfl

@[simp] theorem remaining_lower (graph : Digraph) (low : Nat) (search : Search) :
    (search.lower low).remaining graph = search.remaining graph :=
  congrArg (search.unvisited.size * (search.width graph + 2) + ·) (pending_lower low search)

@[simp] theorem remaining_complete (graph : Digraph) (node : Node) (search : Search) :
    (search.complete node).remaining graph = search.remaining graph := rfl

theorem foldr_max_le_iff {size : Node → Nat} {nodes : List Node} {bound : Nat} :
    nodes.foldr (fun node widest => max (size node) widest) 0 ≤ bound ↔ ∀ node ∈ nodes, size node ≤ bound := by
  induction nodes with
  | nil => simp
  | cons node rest ih => rw [List.foldr_cons, Nat.max_le, ih, List.forall_mem_cons]

theorem width_le_iff {graph : Digraph} {search : Search} {bound : Nat} :
    search.width graph ≤ bound ↔
      ∀ node ∈ search.unvisited, (graph.successors node).length ≤ bound := by
  simp only [width, foldr_max_le_iff, Std.ExtTreeSet.mem_toList]

theorem remaining_enter {graph : Digraph} {node : Node} {search : Search}
    (unvisited : node ∈ search.unvisited) :
    (search.enter graph node).remaining graph < search.remaining graph := by
  have narrower : (search.enter graph node).width graph ≤ search.width graph :=
    width_le_iff.mpr fun other found =>
      width_le_iff.mp (Nat.le_refl _) other (Std.ExtTreeSet.mem_of_mem_erase found)
  have covered : (graph.successors node).length ≤ search.width graph :=
    width_le_iff.mp (Nat.le_refl _) node unvisited
  have fewer := NodeSet.size_erase_add_one unvisited
  have pending : (search.enter graph node).pending =
      (graph.successors node).length + 1 + search.pending := rfl
  have area := Nat.mul_le_mul_left (search.unvisited.erase node).size
    (Nat.add_le_add_right narrower 2)
  calc
    (search.enter graph node).remaining graph
      = (search.unvisited.erase node).size * ((search.enter graph node).width graph + 2) +
          ((graph.successors node).length + 1 + search.pending) := congrArg _ pending
    _ < ((search.unvisited.erase node).size + 1) * (search.width graph + 2) + search.pending := by
      rw [Nat.succ_mul]
      omega
    _ = search.remaining graph := by rw [fewer]; rfl

theorem remaining_step {graph : Digraph} {search next : Search}
    (stepped : search.step graph = some next) : next.remaining graph < search.remaining graph := by
  unfold step at stepped
  split at stepped
  next => cases stepped
  next node low successor rest frames framed =>
    have fewer : ({ search with frames := ⟨node, low, rest⟩ :: frames } : Search).remaining graph <
        search.remaining graph := by
      simp [remaining, pending, width, framed]
    simp only at stepped
    split at stepped
    next unvisited =>
      cases stepped
      exact Nat.lt_trans (@remaining_enter graph _ { search with frames := _ } unvisited) fewer
    next =>
      split at stepped <;> cases stepped
      · rwa [remaining_lower]
      · exact fewer
  next node low frames framed =>
    have fewer : ({ search with frames } : Search).remaining graph < search.remaining graph := by
      simp [remaining, pending, width, framed]
    cases stepped
    split
    · rwa [remaining_lower, remaining_complete]
    · rwa [remaining_lower]

def run (graph : Digraph) (search : Search) : Search :=
  match _stepped : search.step graph with
  | none => search
  | some next => next.run graph
termination_by search.remaining graph
decreasing_by exact remaining_step _stepped

def visit (graph : Digraph) (search : Search) (root : Node) : Search :=
  if root ∈ search.unvisited then (search.enter graph root).run graph else search

end Search

/-- The strongly connected components, each after those it reaches. Members are listed
latest discovered first. -/
def Digraph.components (graph : Digraph) : List Component :=
  (graph.nodes.toList.foldl (Search.visit graph) (.start graph)).components.toList

end Reclaim
