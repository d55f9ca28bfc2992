import Reclaim.Graph.Marking
import Reclaim.Proofs.Graph.Reachability

/-! What marking finds. Black nodes lead to no white node, so once no node is gray the white
ones are exactly those that no root reaches. -/

set_option autoImplicit false

namespace Reclaim

namespace Marking

variable {graph : Digraph} {roots nodes : List Node} {marking next : Marking} {node other : Node}

def found (marking : Marking) (node : Node) : Prop :=
  node ∈ marking.gray ∨ node ∈ marking.black

structure Sound (graph : Digraph) (roots : List Node) (marking : Marking) : Prop where
  covered : ∀ node ∈ graph.nodes, node ∈ marking.white ∨ marking.found node
  white_mem : ∀ node ∈ marking.white, node ∈ graph.nodes ∧ ¬marking.found node
  reached : ∀ node, marking.found node → ∃ root ∈ roots, graph.Reach root node

def Looked (graph : Digraph) (marking : Marking) : Prop :=
  ∀ node ∈ marking.black, ∀ successor ∈ graph.successors node, successor ∉ marking.white

theorem sound_start (graph : Digraph) (roots : List Node) : (start graph).Sound graph roots where
  covered node present := .inl present
  white_mem node present := ⟨present, by simp [found, start]⟩
  reached node found := by simp [Marking.found, start] at found

theorem mem_white_shade :
    other ∈ (marking.shade node).white ↔ other ∈ marking.white ∧ other ≠ node := by
  unfold shade
  split
  next => rw [NodeSet.mem_erase_iff, and_comm]
  next absent =>
    constructor
    · intro white
      exact ⟨white, fun same => absent (same ▸ white)⟩
    · exact And.left

@[simp] theorem black_shade : (marking.shade node).black = marking.black := by
  unfold shade
  split <;> rfl

theorem found_shade :
    (marking.shade node).found other ↔ marking.found other ∨ (other = node ∧ node ∈ marking.white) := by
  unfold shade
  split
  next white => simp only [found, white, List.mem_cons, and_true, or_comm, or_assoc]
  next absent => simp [absent]

theorem mem_white_shadeAll :
    other ∈ (marking.shadeAll nodes).white ↔ other ∈ marking.white ∧ other ∉ nodes := by
  induction nodes generalizing marking with
  | nil => simp [shadeAll]
  | cons node rest ih =>
    have unfolded : marking.shadeAll (node :: rest) = (marking.shade node).shadeAll rest := rfl
    rw [unfolded, ih, mem_white_shade, List.mem_cons, not_or, and_assoc]

@[simp] theorem black_shadeAll : (marking.shadeAll nodes).black = marking.black := by
  induction nodes generalizing marking with
  | nil => rfl
  | cons node rest ih => exact ih.trans black_shade

theorem Sound.shade (sound : marking.Sound graph roots)
    (reached : node ∈ graph.nodes → ∃ root ∈ roots, graph.Reach root node) :
    (marking.shade node).Sound graph roots where
  covered other present := by
    rw [mem_white_shade, found_shade]
    rcases sound.covered other present with white | found
    · by_cases same : other = node
      · exact .inr (.inr ⟨same, same ▸ white⟩)
      · exact .inl ⟨white, same⟩
    · exact .inr (.inl found)
  white_mem other white := by
    obtain ⟨white, different⟩ := mem_white_shade.mp white
    obtain ⟨present, fresh⟩ := sound.white_mem other white
    exact ⟨present, fun found => (found_shade.mp found).elim fresh fun now => different now.1⟩
  reached other found := by
    rcases found_shade.mp found with found | ⟨same, white⟩
    · exact sound.reached other found
    · exact same ▸ reached (sound.white_mem node white).1

theorem Sound.shadeAll (sound : marking.Sound graph roots)
    (reached : ∀ node ∈ nodes, node ∈ graph.nodes → ∃ root ∈ roots, graph.Reach root node) :
    (marking.shadeAll nodes).Sound graph roots := by
  induction nodes generalizing marking with
  | nil => exact sound
  | cons node rest ih =>
    exact ih (sound.shade (reached node (by simp)))
      fun other member => reached other (List.mem_cons_of_mem node member)

theorem step_cases (stepped : marking.step graph = some next) : ∃ node rest,
    marking.gray = node :: rest ∧
      next = shadeAll ⟨marking.white, rest, marking.black.insert node⟩ (graph.successors node) := by
  unfold step at stepped
  split at stepped <;> cases stepped
  next node rest gray => exact ⟨node, rest, gray, rfl⟩

theorem Sound.step (sound : marking.Sound graph roots) (stepped : marking.step graph = some next) :
    next.Sound graph roots := by
  obtain ⟨node, rest, gray, rfl⟩ := step_cases stepped
  -- Blackening loses no found node, and the successors are reached through the blackened one.
  have same (other : Node) : found ⟨marking.white, rest, marking.black.insert node⟩ other ↔
      marking.found other := by
    simp only [found, gray, NodeSet.mem_insert_iff, List.mem_cons, or_left_comm, or_assoc]
  have blackened : Sound graph roots ⟨marking.white, rest, marking.black.insert node⟩ :=
    ⟨by simpa only [same] using sound.covered, by simpa only [same] using sound.white_mem,
      by simpa only [same] using sound.reached⟩
  apply blackened.shadeAll
  intro successor listed present
  obtain ⟨root, member, path⟩ := sound.reached node (.inl (by simp [gray]))
  exact ⟨root, member, path.tail ⟨path.target_mem, present, listed⟩⟩

theorem Looked.step (looked : marking.Looked graph) (stepped : marking.step graph = some next) :
    next.Looked graph := by
  obtain ⟨node, rest, gray, rfl⟩ := step_cases stepped
  intro black member successor listed white
  rw [black_shadeAll, NodeSet.mem_insert_iff] at member
  obtain ⟨white, unlisted⟩ := mem_white_shadeAll.mp white
  rcases member with rfl | member
  · exact unlisted listed
  · exact looked black member successor listed white

theorem white_of_step (stepped : marking.step graph = some next) (white : node ∈ next.white) :
    node ∈ marking.white := by
  obtain ⟨_, _, _, rfl⟩ := step_cases stepped
  exact (mem_white_shadeAll.mp white).1

theorem gray_of_stuck (stuck : marking.step graph = none) : marking.gray = [] := by
  unfold step at stuck
  split at stuck
  next none => exact none
  next => cases stuck

/-- What every step keeps holds at the end, where no node is gray. -/
theorem run_induction (keeps : Marking → Prop) (start : keeps marking)
    (step : ∀ before after, keeps before → before.step graph = some after → keeps after) :
    keeps (marking.run graph) ∧ (marking.run graph).gray = [] := by
  fun_induction run graph marking with
  | case1 marking stuck => exact ⟨start, gray_of_stuck stuck⟩
  | case2 marking next stepped ih => exact ih (step marking next start stepped)

end Marking

namespace Digraph

variable {graph : Digraph} {roots : List Node} {node : Node}

/-- Marking leaves exactly the nodes that no root reaches. -/
theorem mem_unreached :
    node ∈ graph.unreached roots ↔ node ∈ graph.nodes ∧ ∀ root ∈ roots, ¬graph.Reach root node := by
  let start := (Marking.start graph).shadeAll roots
  have sound : start.Sound graph roots :=
    (Marking.sound_start graph roots).shadeAll fun root member present =>
      ⟨root, member, .refl present⟩
  have looked : start.Looked graph := by
    intro black member
    simp [start, Marking.start] at member
  have rooted (root : Node) (member : root ∈ roots) : root ∉ start.white :=
    fun white => (Marking.mem_white_shadeAll.mp white).2 member
  obtain ⟨⟨sound, looked, rooted⟩, gray⟩ := Marking.run_induction
    (fun marking => marking.Sound graph roots ∧ marking.Looked graph ∧
      ∀ root ∈ roots, root ∉ marking.white)
    ⟨sound, looked, rooted⟩
    fun before after kept stepped => ⟨kept.1.step stepped, kept.2.1.step stepped,
      fun root member white => kept.2.2 root member (Marking.white_of_step stepped white)⟩
  have black_of_found {node : Node} (found : (start.run graph).found node) :
      node ∈ (start.run graph).black := by
    simpa [Marking.found, gray] using found
  rw [unreached, Std.ExtTreeSet.mem_toList]
  constructor
  · intro white
    obtain ⟨present, fresh⟩ := sound.white_mem node white
    refine ⟨present, fun root member path => ?_⟩
    -- Everything that a root reaches is black.
    have black := path.mem_of_closed (· ∈ (start.run graph).black)
      (fun source target edge black => black_of_found <|
        (sound.covered target edge.target_mem).resolve_left
          (looked source black target edge.listed))
      (black_of_found ((sound.covered root path.source_mem).resolve_left (rooted root member)))
    exact fresh (.inr black)
  · rintro ⟨present, unreached⟩
    refine (sound.covered node present).resolve_right fun found => ?_
    obtain ⟨root, member, path⟩ := sound.reached node found
    exact unreached root member path

theorem nodup_unreached : (graph.unreached roots).Nodup :=
  Std.ExtTreeSet.distinct_toList.imp fun different same => different (by simp [same])

end Digraph

end Reclaim
