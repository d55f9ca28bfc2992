import Mathlib.Data.List.Nodup
import Mathlib.Data.List.Pairwise
import Reclaim.Proofs.Graph.Components

/-! The components as a partition of the nodes. Two nodes lie together when each reaches the
other, so a partition is unique up to the order of its components and of their members. The
search that computes it ends after a number of moves known in advance, and numbers no more nodes
than there are. -/

set_option autoImplicit false

namespace Reclaim

namespace Digraph

variable {graph : Digraph} {components others : List Component} {component : Component}
  {source target : Node}

structure Partition (graph : Digraph) (components : List Component) : Prop where
  nodup : components.flatten.Nodup
  mem_iff : ∀ node, node ∈ components.flatten ↔ node ∈ graph.nodes
  nonempty : ∀ component ∈ components, component ≠ []
  together_iff : ∀ source target,
    (∃ component ∈ components, source ∈ component ∧ target ∈ component) ↔
      graph.Reach source target ∧ graph.Reach target source
  descends : ∀ (first second : Nat) leaving entered source target,
    components[first]? = some leaving → components[second]? = some entered →
    source ∈ leaving → target ∈ entered → graph.Edge source target → first ≠ second →
    second < first

theorem Decomposition.together_iff (valid : graph.Decomposition components) :
    (∃ component ∈ components, source ∈ component ∧ target ∈ component) ↔
      graph.Reach source target ∧ graph.Reach target source := by
  constructor
  · rintro ⟨component, listed, sourceMem, targetMem⟩
    have connected := valid.connected component listed
    exact ⟨connected source sourceMem target targetMem, connected target targetMem source sourceMem⟩
  · rintro ⟨path, back⟩
    obtain ⟨component, listed, sourceMem⟩ :=
      List.mem_flatten.mp ((valid.mem_iff source).mpr path.source_mem)
    obtain ⟨before, after, rfl⟩ := List.append_of_mem listed
    exact ⟨component, listed, sourceMem, valid.mem_of_between path back sourceMem sourceMem⟩

theorem Arrangement.descends {leaving entered : Component} {first second : Nat}
    (valid : graph.Arrangement components) (leavingAt : components[first]? = some leaving)
    (enteredAt : components[second]? = some entered) (sourceMem : source ∈ leaving)
    (targetMem : target ∈ entered) (edge : graph.Edge source target) (apart : first ≠ second) :
    second < first := by
  obtain ⟨inFirst, rfl⟩ := List.getElem?_eq_some_iff.mp leavingAt
  obtain ⟨inSecond, rfl⟩ := List.getElem?_eq_some_iff.mp enteredAt
  apply Nat.lt_of_not_le
  intro later
  have ordered := List.pairwise_iff_getElem.mp valid.ordered first second inFirst inSecond (by omega)
  exact ordered source sourceMem target targetMem edge

theorem Decomposition.partition (valid : graph.Decomposition components)
    (nonempty : ∀ component ∈ components, component ≠ []) : graph.Partition components where
  nodup := valid.nodup
  mem_iff := valid.mem_iff
  nonempty := nonempty
  together_iff _ _ := valid.together_iff
  descends _ _ _ _ _ _ leavingAt enteredAt := valid.descends leavingAt enteredAt

namespace Partition

theorem together (valid : graph.Partition components) (listed : component ∈ components)
    (sourceMem : source ∈ component) :
    target ∈ component ↔ graph.Reach source target ∧ graph.Reach target source := by
  rw [← valid.together_iff]
  constructor
  · exact fun targetMem => ⟨component, listed, sourceMem, targetMem⟩
  · rintro ⟨other, otherListed, sourceOther, targetOther⟩
    -- The source is listed once, so the two components are one.
    have same : component = other := by
      apply Classical.byContradiction
      intro apart
      obtain ⟨_, disjoint⟩ := List.nodup_flatten.mp valid.nodup
      have symmetric : Std.Symm (List.Disjoint : Component → Component → Prop) :=
        ⟨fun _ _ apart _ first second => apart second first⟩
      exact disjoint.forall listed otherListed apart sourceMem sourceOther
    exact same ▸ targetOther

/-- Every component of a partition is one of any other, its members in some order. -/
theorem exists_perm (valid : graph.Partition components) (another : graph.Partition others)
    (listed : component ∈ components) : ∃ other ∈ others, component.Perm other := by
  obtain ⟨source, sourceMem⟩ := List.exists_mem_of_ne_nil component (valid.nonempty component listed)
  have present := (valid.mem_iff source).mp (List.mem_flatten.mpr ⟨component, listed, sourceMem⟩)
  obtain ⟨other, otherListed, sourceOther⟩ := List.mem_flatten.mp ((another.mem_iff source).mpr present)
  refine ⟨other, otherListed, (List.perm_ext_iff_of_nodup ?_ ?_).mpr fun target => ?_⟩
  · exact (List.nodup_flatten.mp valid.nodup).1 component listed
  · exact (List.nodup_flatten.mp another.nodup).1 other otherListed
  · rw [valid.together listed sourceMem, another.together otherListed sourceOther]

theorem positions (valid : graph.Partition components) (edge : graph.Edge source target) :
    ∃ (first second : Nat) (leaving entered : Component),
      components[first]? = some leaving ∧ source ∈ leaving ∧
      components[second]? = some entered ∧ target ∈ entered ∧ second ≤ first := by
  have located {node : Node} (present : node ∈ graph.nodes) :
      ∃ (place : Nat) (component : Component), components[place]? = some component ∧ node ∈ component := by
    obtain ⟨component, listed, member⟩ := List.mem_flatten.mp ((valid.mem_iff node).mpr present)
    obtain ⟨place, at'⟩ := List.getElem?_of_mem listed
    exact ⟨place, component, at', member⟩
  obtain ⟨first, leaving, leavingAt, sourceMem⟩ := located edge.source_mem
  obtain ⟨second, entered, enteredAt, targetMem⟩ := located edge.target_mem
  refine ⟨first, second, leaving, entered, leavingAt, sourceMem, enteredAt, targetMem, ?_⟩
  by_cases same : first = second
  · exact Nat.le_of_eq same.symm
  · have earlier := valid.descends first second leaving entered source target leavingAt enteredAt
      sourceMem targetMem edge same
    omega

end Partition

end Digraph

namespace Search

variable {graph : Digraph} {search next : Search} {node : Node} {moves : Nat}

/-- What a search is after a number of moves: a move is a step or, when no frame is left, the
entry of an unvisited node. -/
inductive Passes (graph : Digraph) : Nat → Search → Prop where
  | fresh : Passes graph 0 (start graph)
  | root {moves : Nat} {search : Search} {node : Node} :
      Passes graph moves search → search.frames = [] → node ∈ search.unvisited →
      Passes graph (moves + 1) (search.enter graph node)
  | step {moves : Nat} {search next : Search} :
      Passes graph moves search → search.step graph = some next → Passes graph (moves + 1) next

theorem Passes.moves_le (passes : Passes graph moves search) :
    moves + search.remaining graph ≤ (start graph).remaining graph := by
  induction passes with
  | fresh => omega
  | @root moves search node _ _ unvisited ih =>
    have fewer : (search.enter graph node).remaining graph < search.remaining graph :=
      remaining_enter unvisited
    omega
  | step _ stepped ih =>
    have fewer := remaining_step stepped
    omega

/-- Each node that is discovered is one unvisited node less. -/
theorem Passes.discovered_add (passes : Passes graph moves search) :
    search.discovered + search.unvisited.size = graph.nodes.size := by
  induction passes with
  | fresh => exact Nat.zero_add _
  | root _ _ unvisited ih =>
    have fewer := NodeSet.size_erase_add_one unvisited
    simp only [enter]
    omega
  | step _ stepped ih =>
    cases move_of_step stepped with
    | enter _ unvisited =>
      have fewer := NodeSet.size_erase_add_one unvisited
      simp only [enter]
      omega
    | _ => exact ih

theorem Passes.nonempty (passes : Passes graph moves search) :
    ∀ component ∈ search.components, component ≠ [] := by
  induction passes with
  | fresh => simp [start]
  | root _ _ _ ih => exact ih
  | step _ stepped ih =>
    cases move_of_step stepped with
    | complete _ _ =>
      intro component listed
      rcases Array.mem_push.mp listed with listed | rfl
      · exact ih component listed
      · simp
    | _ => exact ih

theorem Passes.run (passes : Passes graph moves search) :
    ∃ moves, Passes graph moves (search.run graph) := by
  fun_induction Search.run graph search generalizing moves with
  | case1 search stuck => exact ⟨moves, passes⟩
  | case2 search next stepped ih => exact ih (passes.step stepped)

theorem Passes.visit (node : Node) (passes : Passes graph moves search)
    (idle : search.frames = []) : ∃ moves, Passes graph moves (search.visit graph node) := by
  unfold Search.visit
  split
  next unvisited => exact (passes.root idle unvisited).run
  next => exact ⟨moves, passes⟩

theorem Passes.visitAll (roots : List Node) (passes : Passes graph moves search)
    (sound : search.Sound graph) (idle : search.frames = []) :
    ∃ moves, Passes graph moves (roots.foldl (Search.visit graph) search) := by
  induction roots generalizing search moves with
  | nil => exact ⟨moves, passes⟩
  | cons root rest ih =>
    obtain ⟨later, passes⟩ := passes.visit root idle
    obtain ⟨sound, idle, _⟩ := sound.visit root idle
    exact ih passes sound idle

end Search

theorem Digraph.exists_passes_last (graph : Digraph) : ∃ moves last,
    Search.Passes graph moves last ∧ last.step graph = none ∧ last.unvisited = ∅ ∧
      graph.components = last.components.toList := by
  obtain ⟨_, idle, visited⟩ := (Search.sound_start graph).visitAll graph.nodes.toList rfl
  obtain ⟨moves, passes⟩ := Search.Passes.fresh.visitAll graph.nodes.toList (Search.sound_start graph) rfl
  refine ⟨moves, _, passes, ?_, ?_, rfl⟩
  · unfold Search.step
    rw [idle]
  · ext node
    simp only [Std.ExtTreeSet.not_mem_empty, iff_false]
    intro white
    obtain ⟨present, unlisted⟩ := visited node white
    exact unlisted (Std.ExtTreeSet.mem_toList.mpr present)

theorem Digraph.partition_components (graph : Digraph) : graph.Partition graph.components := by
  obtain ⟨moves, last, passes, _, _, same⟩ := graph.exists_passes_last
  apply graph.decomposition_components.partition
  intro component listed
  rw [same] at listed
  exact passes.nonempty component (Array.mem_toList_iff.mp listed)

/-- The search for the components of a graph ends, within a number of moves that the graph bounds;
it numbers no more nodes than there are, and returns a partition. -/
theorem Digraph.search_ends_with_partition (graph : Digraph) :
    (∃ moves last, Search.Passes graph moves last ∧ last.step graph = none ∧
        last.unvisited = ∅ ∧ graph.components = last.components.toList) ∧
      (∀ moves search, Search.Passes graph moves search →
        moves ≤ graph.nodes.size * ((Search.start graph).width graph + 2) ∧
        search.discovered ≤ graph.nodes.size) ∧
      graph.Partition graph.components := by
  refine ⟨graph.exists_passes_last, fun moves search passes => ?_, graph.partition_components⟩
  have bound := passes.moves_le
  have discovered := passes.discovered_add
  have first : (Search.start graph).remaining graph =
      graph.nodes.size * ((Search.start graph).width graph + 2) := rfl
  omega

end Reclaim
