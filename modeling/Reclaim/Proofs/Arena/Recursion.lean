import Reclaim.Proofs.Arena.Search
import Reclaim.Proofs.Graph.Recursion

/-! The search on arrays gives the components that the recursion gives. It adds to no count, so nothing
but an index, a subtraction or a discovery number could stop it, and none of these does. -/

set_option autoImplicit false

namespace Reclaim

def Trap.Uncounted (trap : Trap) : Prop := ∀ abort, trap ≠ .aborted abort

section Primitives

variable {α : Type}

theorem uncounted_readAt (cells : Array α) (index : Nat) :
    FailsOnly Trap.Uncounted (readAt cells index) := by
  unfold readAt
  split
  · exact .ok
  · exact .error nofun

theorem uncounted_writeAt (cells : Array α) (index : Nat) (cell : α) :
    FailsOnly Trap.Uncounted (writeAt cells index cell) := by
  unfold writeAt
  split
  · exact .ok
  · exact .error nofun

theorem uncounted_nextNumber (number : Nat) : FailsOnly Trap.Uncounted (nextNumber number) := by
  unfold nextNumber
  split
  · exact .ok
  · exact .error nofun

end Primitives

namespace Descent

variable {graph : Digraph}

theorem uncounted_enter (node : Node) (descent : Descent) :
    FailsOnly Trap.Uncounted (descent.enter graph node) :=
  (uncounted_writeAt _ _ _).bind fun _ => (uncounted_writeAt _ _ _).bind fun _ =>
    (uncounted_nextNumber _).bind fun _ => (uncounted_writeAt _ _ _).bind fun _ => .ok

theorem uncounted_unwind (node : Node) (stack : List Node) (opened : Array Bool) (members : Component) :
    FailsOnly Trap.Uncounted (unwind node stack opened members) := by
  induction stack generalizing opened members with
  | nil => exact .ok
  | cons member stack ih =>
    refine (uncounted_writeAt _ _ _).bind fun opened => ?_
    split
    · exact .ok
    · exact ih opened _

theorem uncounted_lower (node : Node) (number : Nat) (descent : Descent) :
    FailsOnly Trap.Uncounted (descent.lower node number) :=
  (uncounted_readAt _ _).bind fun _ => (uncounted_writeAt _ _ _).bind fun _ => .ok

theorem uncounted_look (node successor : Node) (descent : Descent) :
    FailsOnly Trap.Uncounted (look graph node successor descent) := by
  unfold look
  split
  · refine (uncounted_readAt _ _).bind fun number => ?_
    split
    · exact uncounted_enter successor descent
    · refine (uncounted_readAt _ _).bind fun isOpen => ?_
      split
      · exact (uncounted_readAt _ _).bind fun found => uncounted_lower node found descent
      · exact .ok
  · exact .ok

theorem uncounted_leave (node : Node) (descent : Descent) :
    FailsOnly Trap.Uncounted (descent.leave node) := by
  refine (uncounted_readAt _ _).bind fun low => (uncounted_readAt _ _).bind fun number => ?_
  refine FailsOnly.bind ?_ fun completed => ?_
  · split
    · exact (uncounted_unwind _ _ _ _).bind fun _ => .ok
    · exact .ok
  · unfold pass
    split
    · exact .ok
    · exact (uncounted_readAt _ _).bind fun low => uncounted_lower _ low completed

theorem uncounted_step (descent : Descent) : FailsOnly Trap.Uncounted (descent.step graph) := by
  unfold step
  split
  · exact .ok
  · split
    · exact (uncounted_readAt _ _).bind fun successor => (uncounted_look _ successor _).map
    · exact (uncounted_leave _ _).map

theorem uncounted_run (descent : Descent) : FailsOnly Trap.Uncounted (descent.run graph) := by
  fun_induction Descent.run graph descent with
  | case1 descent trap failed => exact .error (uncounted_step descent trap failed)
  | case2 descent ended => exact .ok
  | case3 descent next stepped ih => exact ih

theorem uncounted_visit (root : Node) (descent : Descent) :
    FailsOnly Trap.Uncounted (descent.visit graph root) := by
  unfold visit
  split
  · refine (uncounted_readAt _ _).bind fun number => ?_
    split
    · exact (uncounted_enter root descent).bind fun _ => uncounted_run _
    · exact .ok
  · exact .ok

theorem uncounted_visitAll (roots : List Node) (descent : Descent) :
    FailsOnly Trap.Uncounted (roots.foldlM (Descent.visit graph) descent) := by
  induction roots generalizing descent with
  | nil => exact .ok
  | cons root roots ih =>
    rw [List.foldlM_cons]
    exact (uncounted_visit root descent).bind ih

end Descent

namespace Digraph

theorem uncounted_descend (graph : Digraph) (bound : Nat) :
    FailsOnly Trap.Uncounted (graph.descend bound) :=
  (Descent.uncounted_visitAll _ _).bind fun _ => .ok

theorem descend_eq_ok {graph : Digraph} {bound : Nat} (bounded : ∀ node ∈ graph.nodes, node < bound)
    (few : graph.nodes.size < maxNumber) : graph.descend bound = .ok graph.components := by
  obtain ⟨components, ended, rfl⟩ | ⟨abort, aborted⟩ := (safe_descend bounded).cases few
  · exact ended
  · exact absurd rfl (uncounted_descend graph bound _ aborted abort)

/-- The search for the components of a graph does on a list of frames what the recursion does, and so it does
on arrays if 32 bits can number the nodes: the components are the same, in the same order, and so are their
members. -/
theorem searches_eq_recursive (graph : Digraph) :
    graph.components = graph.recursiveComponents ∧
      ∀ bound, (∀ node ∈ graph.nodes, node < bound) → graph.nodes.size < maxNumber →
        graph.descend bound = .ok graph.recursiveComponents := by
  have same := graph.components_eq_recursiveComponents
  refine ⟨same, fun bound bounded few => ?_⟩
  rw [← same]
  exact descend_eq_ok bounded few

/-- An edge leads from a cycle to another. There is an absent node, and successors that are absent or repeated. -/
def joinedCycles : Digraph :=
  .ofAdjacency [some [1, 3], some [2, 7, 2], some [1, 0], some [5, 4], none, some [5, 3]]

theorem searches_eq_recursive_joinedCycles :
    (∀ node ∈ joinedCycles.nodes, node < 6) ∧ joinedCycles.nodes.size < maxNumber ∧
      joinedCycles.descend 6 = .ok [[5, 3], [2, 1, 0]] := by
  have bounded : ∀ node ∈ joinedCycles.nodes, node < 6 := by
    have listed : ∀ node ∈ joinedCycles.nodes.toList, node < 6 := by decide +kernel
    exact fun node present => listed node (Std.ExtTreeSet.mem_toList.mpr present)
  have few : joinedCycles.nodes.size < maxNumber := by decide +kernel
  have components : joinedCycles.components = [[5, 3], [2, 1, 0]] := by decide +kernel
  obtain ⟨same, descends⟩ := joinedCycles.searches_eq_recursive
  refine ⟨bounded, few, ?_⟩
  rw [descends 6 bounded few, ← same, components]

end Digraph

end Reclaim
