import Reclaim.Graph.Digraph

/-! Tri-colour marking. Every node starts white; a node turns gray when it is found
and black when its successors have been looked at. Marking ends when no node is gray,
and the nodes that are still white are those no root reaches. -/

set_option autoImplicit false

namespace Reclaim

structure Marking where
  white : NodeSet
  gray : List Node
  black : NodeSet

namespace Marking

def start (graph : Digraph) : Marking where
  white := graph.nodes
  gray := []
  black := ∅

/-- Found nodes turn gray once; a node that is gray, black or absent stays as it is. -/
def shade (marking : Marking) (node : Node) : Marking :=
  if node ∈ marking.white then
    { marking with white := marking.white.erase node, gray := node :: marking.gray }
  else
    marking

def remaining (marking : Marking) : Nat :=
  marking.white.size + marking.gray.length

@[simp] theorem remaining_shade (marking : Marking) (node : Node) :
    (marking.shade node).remaining = marking.remaining := by
  unfold shade
  split
  next found =>
    have fewer := NodeSet.size_erase_add_one found
    simp only [remaining, List.length_cons]
    omega
  next => rfl

def shadeAll (marking : Marking) (nodes : List Node) : Marking :=
  nodes.foldl shade marking

@[simp] theorem remaining_shadeAll (marking : Marking) (nodes : List Node) :
    (marking.shadeAll nodes).remaining = marking.remaining := by
  induction nodes generalizing marking with
  | nil => rfl
  | cons node rest ih => simpa [shadeAll] using ih (marking.shade node)

def step (graph : Digraph) (marking : Marking) : Option Marking :=
  match marking.gray with
  | [] => none
  | node :: rest =>
    some (shadeAll { marking with gray := rest, black := marking.black.insert node }
      (graph.successors node))

theorem remaining_step {graph : Digraph} {marking next : Marking}
    (stepped : marking.step graph = some next) : next.remaining < marking.remaining := by
  unfold step at stepped
  split at stepped
  next => cases stepped
  next node rest gray =>
    cases stepped
    rw [remaining_shadeAll]
    simp [remaining, gray]

def run (graph : Digraph) (marking : Marking) : Marking :=
  match _stepped : marking.step graph with
  | none => marking
  | some next => next.run graph
termination_by marking.remaining
decreasing_by exact remaining_step _stepped

end Marking

def Digraph.unreached (graph : Digraph) (roots : List Node) : List Node :=
  (((Marking.start graph).shadeAll roots).run graph).white.toList

end Reclaim
