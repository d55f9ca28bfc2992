import Reclaim.Proofs.Arena.Checked
import Reclaim.Proofs.Graph.Partition
import Reclaim.Proofs.Results

/-! The search for components on arrays. Each node has a place for its discovery number, for the lowest
number seen from it and for whether it is open. The successors of all nodes under examination lie in one
buffer, and a frame is a range of it. -/

set_option autoImplicit false

namespace Reclaim

/-- A node under examination, with where its successors start in the buffer and the next one to look at. -/
structure Visit where
  node : Node
  start : Nat
  next : Nat

/-- A node without a discovery number has the largest one. -/
structure Descent where
  index : Array Nat
  low : Array Nat
  opened : Array Bool
  discovered : Nat := 0
  stack : List Node := []
  visits : List Visit := []
  successors : Array Node := #[]
  components : Array Component := #[]

namespace Descent

def start (bound : Nat) : Descent where
  index := .replicate bound maxNumber
  low := .replicate bound 0
  opened := .replicate bound false

def enter (graph : Digraph) (node : Node) (descent : Descent) : Checked Descent := do
  let index ← writeAt descent.index node descent.discovered
  let low ← writeAt descent.low node descent.discovered
  let discovered ← nextNumber descent.discovered
  let opened ← writeAt descent.opened node true
  return { descent with
    index, low, discovered, opened
    stack := node :: descent.stack
    visits := ⟨node, descent.successors.size, descent.successors.size⟩ :: descent.visits
    successors := descent.successors ++ (graph.successors node).toArray }

def unwind (node : Node) : List Node → Array Bool → Component →
    Checked (List Node × Array Bool × Component)
  | [], opened, members => return ([], opened, members)
  | member :: stack, opened, members => do
    let opened ← writeAt opened member false
    if member = node then return (stack, opened, members ++ [member])
    else unwind node stack opened (members ++ [member])

def emit (node : Node) (descent : Descent) : Checked Descent := do
  let (stack, opened, members) ← unwind node descent.stack descent.opened []
  return { descent with stack, opened, components := descent.components.push members }

def lower (node : Node) (number : Nat) (descent : Descent) : Checked Descent := do
  let own ← readAt descent.low node
  let low ← writeAt descent.low node (min own number)
  return { descent with low }

def look (graph : Digraph) (node successor : Node) (descent : Descent) : Checked Descent := do
  if successor ∈ graph.nodes then
    let number ← readAt descent.index successor
    if number = maxNumber then
      descent.enter graph successor
    else
      let isOpen ← readAt descent.opened successor
      if isOpen then
        descent.lower node (← readAt descent.index successor)
      else
        return descent
  else
    return descent

/-- The node on top now, if there is one, has seen what was seen from the node that it has entered. -/
def pass (node : Node) (descent : Descent) : Checked Descent :=
  match descent.visits with
  | [] => return descent
  | parent :: _ => do
    let low ← readAt descent.low node
    descent.lower parent.node low

def leave (node : Node) (descent : Descent) : Checked Descent := do
  let low ← readAt descent.low node
  let number ← readAt descent.index node
  let descent ← (if low = number then descent.emit node else pure descent)
  descent.pass node

def step (graph : Digraph) (descent : Descent) : Checked (Option Descent) :=
  match descent.visits with
  | [] => return none
  | ⟨node, start, next⟩ :: visits =>
    if next < descent.successors.size then do
      let successor ← readAt descent.successors next
      some <$> look graph node successor { descent with visits := ⟨node, start, next + 1⟩ :: visits }
    else
      some <$> leave node { descent with visits, successors := descent.successors.shrink start }

def unvisited (descent : Descent) : Nat := descent.index.countP (· = maxNumber)

/-- The places of a buffer that visits have still to look at, with one for the return of each. -/
def left : List Visit → Nat → Nat
  | [], _ => 0
  | visit :: visits, size => size - visit.next + 1 + left visits (min visit.start size)

def pending (descent : Descent) : Nat := left descent.visits descent.successors.size

/-- The most successors of a node that the arrays have places for. -/
def width (graph : Digraph) (descent : Descent) : Nat :=
  (List.range descent.index.size).foldr (fun node widest => max (graph.successors node).length widest) 0

/-- A bound on the steps left: entering a node costs its successors and its return. -/
def remaining (graph : Digraph) (descent : Descent) : Nat :=
  descent.unvisited * (descent.width graph + 2) + descent.pending

variable {graph : Digraph} {descent next : Descent} {node successor : Node} {number : Nat}

structure Keeps (descent next : Descent) : Prop where
  index : next.index = descent.index
  visits : next.visits = descent.visits
  successors : next.successors = descent.successors

theorem Keeps.remaining (keeps : descent.Keeps next) : next.remaining graph = descent.remaining graph := by
  unfold Descent.remaining unvisited width pending
  rw [keeps.index, keeps.visits, keeps.successors]

theorem length_le_width (placed : node < descent.index.size) :
    (graph.successors node).length ≤ descent.width graph := by
  have widest : descent.width graph ≤ descent.width graph := Nat.le_refl _
  exact Search.foldr_max_le_iff.mp widest node (List.mem_range.mpr placed)

theorem keeps_lower (lowered : descent.lower node number = .ok next) : descent.Keeps next := by
  obtain ⟨own, _, lowered⟩ := ok_of_bind lowered
  obtain ⟨low, _, same⟩ := ok_of_bind lowered
  cases same
  exact ⟨rfl, rfl, rfl⟩

theorem keeps_emit (emitted : descent.emit node = .ok next) : descent.Keeps next := by
  obtain ⟨_, _, same⟩ := ok_of_bind emitted
  cases same
  exact ⟨rfl, rfl, rfl⟩

theorem keeps_pass (passed : descent.pass node = .ok next) : descent.Keeps next := by
  unfold pass at passed
  split at passed
  next =>
    cases passed
    exact ⟨rfl, rfl, rfl⟩
  next =>
    obtain ⟨low, _, lowered⟩ := ok_of_bind passed
    exact keeps_lower lowered

theorem keeps_leave (left : descent.leave node = .ok next) : descent.Keeps next := by
  obtain ⟨low, _, left⟩ := ok_of_bind left
  obtain ⟨number, _, left⟩ := ok_of_bind left
  obtain ⟨middle, completed, left⟩ := ok_of_bind left
  have second := keeps_pass left
  split at completed
  next =>
    have first := keeps_emit completed
    exact ⟨second.index.trans first.index, second.visits.trans first.visits,
      second.successors.trans first.successors⟩
  next =>
    cases completed
    exact second

theorem enter_ok (entered : descent.enter graph node = .ok next) :
    descent.discovered < maxNumber ∧ writeAt descent.index node descent.discovered = .ok next.index ∧
      next.visits = ⟨node, descent.successors.size, descent.successors.size⟩ :: descent.visits ∧
      next.successors = descent.successors ++ (graph.successors node).toArray := by
  obtain ⟨index, written, entered⟩ := ok_of_bind entered
  obtain ⟨low, _, entered⟩ := ok_of_bind entered
  obtain ⟨discovered, numbered, entered⟩ := ok_of_bind entered
  obtain ⟨opened, _, same⟩ := ok_of_bind entered
  cases same
  refine ⟨?_, written, rfl, rfl⟩
  unfold nextNumber at numbered
  split at numbered
  next fits => exact fits
  next => cases numbered

theorem remaining_enter (entered : descent.enter graph node = .ok next)
    (unnumbered : descent.index[node]? = some maxNumber) : next.remaining graph < descent.remaining graph := by
  obtain ⟨fits, written, visits, successors⟩ := enter_ok entered
  have fewer : next.unvisited + 1 = descent.unvisited :=
    countP_writeAt written unnumbered (decide_eq_false (Nat.ne_of_lt fits))
  have width : next.width graph = descent.width graph := by
    unfold Descent.width
    rw [size_writeAt written]
  have covered : (graph.successors node).length ≤ descent.width graph :=
    length_le_width (Array.getElem?_eq_some_iff.mp unnumbered).1
  -- To the visits below, the buffer ends where it has ended before: there the new one starts.
  have pending : next.pending = (graph.successors node).length + 1 + descent.pending := by
    simp [Descent.pending, visits, successors, left]
  calc next.remaining graph
      = next.unvisited * (descent.width graph + 2) + ((graph.successors node).length + 1 + descent.pending) := by
        rw [remaining, width, pending]
    _ < (next.unvisited + 1) * (descent.width graph + 2) + descent.pending := by
        rw [Nat.succ_mul]
        omega
    _ = descent.remaining graph := by rw [fewer, remaining]

theorem remaining_look (looked : look graph node successor descent = .ok next) :
    next.remaining graph ≤ descent.remaining graph := by
  unfold look at looked
  split at looked
  next =>
    obtain ⟨number, read, looked⟩ := ok_of_bind looked
    split at looked
    next unnumbered =>
      exact Nat.le_of_lt (remaining_enter looked (unnumbered ▸ readAt_ok read))
    next =>
      obtain ⟨isOpen, _, looked⟩ := ok_of_bind looked
      split at looked
      · obtain ⟨found, _, lowered⟩ := ok_of_bind looked
        exact Nat.le_of_eq (keeps_lower lowered).remaining
      · cases looked
        exact Nat.le_refl _
  next =>
    cases looked
    exact Nat.le_refl _

theorem remaining_step (stepped : descent.step graph = .ok (some next)) :
    next.remaining graph < descent.remaining graph := by
  unfold step at stepped
  split at stepped
  next => cases stepped
  next node start place visits visiting =>
    split at stepped
    next inside =>
      obtain ⟨successor, _, stepped⟩ := ok_of_bind stepped
      obtain ⟨found, looked, same⟩ := ok_of_map stepped
      cases same
      refine Nat.lt_of_le_of_lt (remaining_look looked) (Nat.add_lt_add_left ?_ _)
      rw [pending, pending, visiting]
      simp only [left]
      omega
    next =>
      obtain ⟨found, returned, same⟩ := ok_of_map stepped
      cases same
      rw [(keeps_leave returned).remaining]
      refine Nat.add_lt_add_left ?_ _
      rw [pending, pending, visiting]
      simp only [left, Array.size_shrink]
      omega

def run (graph : Digraph) (descent : Descent) : Checked Descent :=
  match _stepped : descent.step graph with
  | .error trap => .error trap
  | .ok none => .ok descent
  | .ok (some next) => next.run graph
termination_by descent.remaining graph
decreasing_by exact remaining_step _stepped

def visit (graph : Digraph) (descent : Descent) (root : Node) : Checked Descent := do
  if root ∈ graph.nodes then
    let number ← readAt descent.index root
    if number = maxNumber then
      (← descent.enter graph root).run graph
    else
      return descent
  else
    return descent

end Descent

def Digraph.descend (graph : Digraph) (bound : Nat) : Checked (List Component) := do
  let last ← (List.range bound).foldlM (Descent.visit graph) (.start bound)
  return last.components.toList

end Reclaim
