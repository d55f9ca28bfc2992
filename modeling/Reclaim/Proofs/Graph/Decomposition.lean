import Reclaim.Graph.Components
import Reclaim.Proofs.Graph.Reachability

/-! Decompositions of a graph into strongly connected components, each listed after those it
leads to. A decomposition outlives the removal of a component and the arrival of an isolated
node, so it need not be computed again for either. -/

set_option autoImplicit false

namespace Reclaim

namespace Digraph

variable {graph other : Digraph} {components before after : List Component}
  {component : Component} {source target node : Node}

structure Arrangement (graph : Digraph) (components : List Component) : Prop where
  nodup : components.flatten.Nodup
  connected : ∀ component ∈ components, ∀ source ∈ component, ∀ target ∈ component,
    graph.Reach source target
  ordered : components.Pairwise fun earlier later =>
    ∀ source ∈ earlier, ∀ target ∈ later, ¬graph.Edge source target

structure Decomposition (graph : Digraph) (components : List Component) : Prop extends
    graph.Arrangement components where
  mem_iff : ∀ node, node ∈ components.flatten ↔ node ∈ graph.nodes

theorem Arrangement.nodup_component (valid : graph.Arrangement components) (listed : component ∈ components) :
    component.Nodup :=
  valid.nodup.sublist (List.sublist_flatten_of_mem listed)

namespace Decomposition

theorem closed (valid : graph.Decomposition (before ++ after)) (edge : graph.Edge source target)
    (inside : source ∈ before.flatten) : target ∈ before.flatten := by
  have listed := (valid.mem_iff target).mpr edge.target_mem
  rw [List.flatten_append, List.mem_append] at listed
  refine listed.resolve_right fun later => ?_
  obtain ⟨earlier, earlierMem, sourceMem⟩ := List.mem_flatten.mp inside
  obtain ⟨next, nextMem, targetMem⟩ := List.mem_flatten.mp later
  have apart := (List.pairwise_append.mp valid.ordered).2.2
  exact apart earlier earlierMem next nextMem source sourceMem target targetMem edge

theorem not_mem_before (valid : graph.Decomposition (before ++ component :: after))
    (member : node ∈ component) : node ∉ before.flatten := by
  have nodup := valid.nodup
  rw [List.flatten_append, List.flatten_cons, List.nodup_append] at nodup
  exact fun earlier => nodup.2.2 node earlier node (List.mem_append_left _ member) rfl

theorem not_mem_after (valid : graph.Decomposition (before ++ component :: after))
    (member : node ∈ component) : node ∉ after.flatten := by
  have nodup := valid.nodup
  rw [List.flatten_append, List.flatten_cons, List.nodup_append] at nodup
  exact fun later => (List.nodup_append.mp nodup.2.1).2.2 node member node later rfl

theorem edge_mem (valid : graph.Decomposition (before ++ component :: after))
    (member : source ∈ component) (edge : graph.Edge source target) :
    target ∈ before.flatten ∨ target ∈ component := by
  have split : before ++ component :: after = (before ++ [component]) ++ after := by simp
  rw [split] at valid
  simpa using valid.closed edge (by simp [member])

/-- A path between members of a component stays in it. -/
theorem mem_of_between (valid : graph.Decomposition (before ++ component :: after))
    (first : graph.Reach source node) (second : graph.Reach node target)
    (sourceMem : source ∈ component) (targetMem : target ∈ component) : node ∈ component := by
  have split : before ++ component :: after = (before ++ [component]) ++ after := by simp
  -- Forwards the path stays in the component and the ones before it; were it in one before, it could
  -- not come back to the target.
  have reached : node ∈ (before ++ [component]).flatten :=
    first.mem_of_closed (· ∈ (before ++ [component]).flatten)
      (fun _ _ edge inside => (split ▸ valid).closed edge inside) (by simp [sourceMem])
  simp only [List.flatten_append, List.flatten_cons, List.flatten_nil, List.append_nil,
    List.mem_append] at reached
  refine reached.resolve_left fun earlier => valid.not_mem_before targetMem ?_
  exact second.mem_of_closed (· ∈ before.flatten)
    (fun _ _ edge inside => valid.closed edge inside) earlier

theorem drop (valid : graph.Decomposition (before ++ component :: after))
    (nodes : ∀ node, node ∈ other.nodes ↔ node ∈ graph.nodes ∧ node ∉ component)
    (edges : ∀ source target, other.Edge source target ↔
      graph.Edge source target ∧ source ∉ component ∧ target ∉ component) :
    other.Decomposition (before ++ after) where
  nodup := by
    have nodup := valid.nodup
    rw [List.flatten_append, List.flatten_cons] at nodup
    rw [List.flatten_append]
    exact nodup.sublist ((List.Sublist.refl _).append (List.sublist_append_right component _))
  mem_iff node := by
    rw [nodes, ← valid.mem_iff]
    simp only [List.flatten_append, List.flatten_cons, List.mem_append]
    constructor
    · rintro (earlier | later)
      · exact ⟨.inl earlier, fun member => valid.not_mem_before member earlier⟩
      · exact ⟨.inr (.inr later), fun member => valid.not_mem_after member later⟩
    · rintro ⟨earlier | member | later, removed⟩
      · exact .inl earlier
      · exact absurd member removed
      · exact .inr later
  connected kept keptMem source sourceMem target targetMem := by
    have listed : kept ∈ before ++ component :: after := by
      rcases List.mem_append.mp keptMem with earlier | later
      · exact List.mem_append_left _ earlier
      · exact List.mem_append_right _ (List.mem_cons_of_mem _ later)
    have apart {node : Node} (member : node ∈ kept) : node ∉ component := by
      intro removed
      rcases List.mem_append.mp keptMem with earlier | later
      · exact valid.not_mem_before removed (List.mem_flatten.mpr ⟨kept, earlier, member⟩)
      · exact valid.not_mem_after removed (List.mem_flatten.mpr ⟨kept, later, member⟩)
    obtain ⟨front, back, parted⟩ := List.append_of_mem listed
    -- A path between members of the kept component meets no removed node.
    apply (valid.connected kept listed source sourceMem target targetMem).mono (· ∈ kept)
    · exact fun node present member => (nodes node).mpr ⟨present, apart member⟩
    · exact fun first second edge firstMem secondMem =>
        (edges first second).mpr ⟨edge, apart firstMem, apart secondMem⟩
    · exact fun node from' to' => (parted ▸ valid).mem_of_between from' to' sourceMem targetMem
  ordered := by
    have sub : (before ++ after).Sublist (before ++ component :: after) :=
      (List.Sublist.refl before).append (List.sublist_cons_self component after)
    exact (valid.ordered.sublist sub).imp fun apart source sourceMem target targetMem edge =>
      apart source sourceMem target targetMem ((edges source target).mp edge).1

theorem snoc (valid : graph.Decomposition components) (fresh : node ∉ graph.nodes)
    (nodes : ∀ other', other' ∈ other.nodes ↔ other' = node ∨ other' ∈ graph.nodes)
    (edges : ∀ source target, other.Edge source target ↔ graph.Edge source target) :
    other.Decomposition (components ++ [[node]]) where
  nodup := by
    rw [List.flatten_append, List.nodup_append]
    refine ⟨valid.nodup, by simp, fun old oldMem new newMem same => ?_⟩
    rw [List.flatten_singleton, List.mem_singleton] at newMem
    exact fresh ((valid.mem_iff node).mp (newMem ▸ same ▸ oldMem))
  mem_iff other' := by
    rw [nodes, ← valid.mem_iff]
    simp [or_comm]
  connected component member source sourceMem target targetMem := by
    rcases List.mem_append.mp member with old | new
    · apply (valid.connected component old source sourceMem target targetMem).mono fun _ => True
      · exact fun node present _ => (nodes node).mpr (.inr present)
      · exact fun first second edge _ _ => (edges first second).mpr edge
      · exact fun _ _ _ => trivial
    · rw [List.mem_singleton] at new
      subst new
      rw [List.mem_singleton] at sourceMem targetMem
      rw [sourceMem, targetMem]
      exact .refl ((nodes node).mpr (.inl rfl))
  ordered := by
    refine List.pairwise_append.mpr ⟨?_, List.pairwise_singleton _ _, ?_⟩
    · exact valid.ordered.imp fun apart source sourceMem target targetMem edge =>
        apart source sourceMem target targetMem ((edges source target).mp edge)
    · intro earlier _ later laterMem source _ target targetMem edge
      rw [List.mem_singleton] at laterMem
      rw [laterMem, List.mem_singleton] at targetMem
      exact fresh (targetMem ▸ ((edges source target).mp edge).target_mem)

end Decomposition

end Digraph

end Reclaim
