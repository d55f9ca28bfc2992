import Reclaim.Graph.Digraph

/-! Sets that paths cannot leave, and paths that stay within a set. -/

set_option autoImplicit false

namespace Reclaim

namespace Digraph

variable {graph other : Digraph}

theorem Reach.source_mem {start last : Node} (path : graph.Reach start last) :
    start ∈ graph.nodes := by
  induction path with
  | refl present => exact present
  | tail _ _ ih => exact ih

theorem Edge.reach {source target : Node} (edge : graph.Edge source target) :
    graph.Reach source target :=
  .tail (.refl edge.source_mem) edge

theorem Reach.mem_of_closed {start last : Node} (path : graph.Reach start last)
    (inside : Node → Prop)
    (closed : ∀ source target, graph.Edge source target → inside source → inside target)
    (enters : inside start) : inside last := by
  induction path with
  | refl _ => exact enters
  | tail _ edge ih => exact closed _ _ edge ih

theorem Reach.mono {start last : Node} (path : graph.Reach start last) (inside : Node → Prop)
    (nodes : ∀ node ∈ graph.nodes, inside node → node ∈ other.nodes)
    (edges : ∀ source target, graph.Edge source target → inside source → inside target →
      other.Edge source target)
    (stays : ∀ node, graph.Reach start node → graph.Reach node last → inside node) :
    other.Reach start last := by
  induction path with
  | refl present =>
    exact .refl (nodes _ present (stays _ (.refl present) (.refl present)))
  | tail path edge ih =>
    have first := path.tail edge
    have before := ih fun node from' to' => stays node from' (to'.tail edge)
    exact before.tail (edges _ _ edge (stays _ path edge.reach)
      (stays _ first (.refl edge.target_mem)))

end Digraph

end Reclaim
