import Std.Data.ExtTreeMap
import Std.Data.ExtTreeSet

/-! Finite directed graphs over numbered nodes. A successor list may repeat
nodes and may name nodes that are not in the graph; such successors give no edge. -/

set_option autoImplicit false

namespace Reclaim

abbrev Node := Nat

abbrev NodeSet := Std.ExtTreeSet Node compare

theorem NodeSet.size_erase_add_one {nodes : NodeSet} {node : Node} (present : node ∈ nodes) :
    (nodes.erase node).size + 1 = nodes.size := by
  have positive : nodes.size ≠ 0 := fun empty => by
    simp [Std.ExtTreeSet.eq_empty_iff_size_eq_zero.mpr empty] at present
  have erased := Std.ExtTreeSet.size_erase (t := nodes) (k := node)
  rw [Std.ExtTreeSet.contains_iff_mem.mpr present, if_pos rfl] at erased
  omega

theorem NodeSet.mem_insert_iff {nodes : NodeSet} {node other : Node} :
    other ∈ nodes.insert node ↔ other = node ∨ other ∈ nodes := by
  rw [Std.ExtTreeSet.mem_insert, Std.compare_eq_iff_eq, eq_comm]

theorem NodeSet.mem_erase_iff {nodes : NodeSet} {node other : Node} :
    other ∈ nodes.erase node ↔ other ≠ node ∧ other ∈ nodes := by
  rw [Std.ExtTreeSet.mem_erase, ne_eq, Std.compare_eq_iff_eq, ne_comm, ne_eq]

structure Digraph where
  nodes : NodeSet
  successors : Node → List Node

namespace Digraph

structure Edge (graph : Digraph) (source target : Node) : Prop where
  source_mem : source ∈ graph.nodes
  target_mem : target ∈ graph.nodes
  listed : target ∈ graph.successors source

inductive Reach (graph : Digraph) (start : Node) : Node → Prop where
  | refl : start ∈ graph.nodes → Reach graph start start
  | tail {middle last : Node} :
      Reach graph start middle → graph.Edge middle last → Reach graph start last

theorem Reach.target_mem {graph : Digraph} {start last : Node} (path : graph.Reach start last) :
    last ∈ graph.nodes := by
  cases path with
  | refl present => exact present
  | tail _ edge => exact edge.target_mem

theorem Reach.trans {graph : Digraph} {start middle last : Node}
    (first : graph.Reach start middle) (second : graph.Reach middle last) :
    graph.Reach start last := by
  induction second with
  | refl _ => exact first
  | tail _ edge ih => exact ih.tail edge

/-- A graph given by the successor lists of the nodes `0, 1, …`; a node without a list is absent. -/
def ofAdjacency (lists : List (Option (List Node))) : Digraph where
  nodes := .ofList ((List.range lists.length).filter fun node => (lists[node]?.join).isSome)
  successors node := (lists[node]?.join).getD []

end Digraph

end Reclaim
