import Mathlib.Data.List.Sort
import Reclaim.Proofs.Arena.Basic
import Reclaim.Proofs.Collect.Graphs

/-! Marking on an array of colors. Only nodes of the graph are shaded, so that no color is looked up past
the end of the array, and the nodes that are white at the end are those that marking does not reach. -/

set_option autoImplicit false

namespace Reclaim

inductive Color where
  | white
  | gray
  | black
  deriving DecidableEq, Repr

structure Painting where
  colors : Array Color
  gray : List Node := []

namespace Painting

def start (bound : Nat) : Painting where
  colors := .replicate bound .white

def shade (painting : Painting) (node : Node) : Checked Painting := do
  let color ← readAt painting.colors node
  if color = .white then
    let colors ← writeAt painting.colors node .gray
    return { colors, gray := node :: painting.gray }
  else
    return painting

def step (graph : Digraph) (painting : Painting) : Checked (Option Painting) :=
  match painting.gray with
  | [] => return none
  | node :: gray => do
    let colors ← writeAt painting.colors node .black
    some <$> (graph.successors node).foldlM shade { colors, gray }

def remaining (painting : Painting) : Nat :=
  painting.colors.countP (· = .white) + painting.gray.length

variable {graph : Digraph} {painting next : Painting} {marking : Marking} {node : Node} {few : Prop}

theorem remaining_shade (shaded : painting.shade node = .ok next) : next.remaining = painting.remaining := by
  obtain ⟨color, read, shaded⟩ := ok_of_bind shaded
  split at shaded
  next white =>
    obtain ⟨colors, written, same⟩ := ok_of_bind shaded
    cases same
    have fewer : colors.countP (· = .white) + _ = painting.colors.countP (· = .white) :=
      countP_writeAt written (readAt_ok read) rfl
    rw [white, if_pos (decide_eq_true rfl)] at fewer
    simp only [remaining, List.length_cons]
    omega
  next =>
    cases shaded
    rfl

theorem remaining_shadeAll {nodes : List Node} (shaded : nodes.foldlM shade painting = .ok next) :
    next.remaining = painting.remaining := by
  induction nodes generalizing painting with
  | nil =>
    cases shaded
    rfl
  | cons node rest ih =>
    rw [List.foldlM_cons] at shaded
    obtain ⟨middle, first, later⟩ := ok_of_bind shaded
    rw [ih later, remaining_shade first]

theorem remaining_step (stepped : painting.step graph = .ok (some next)) :
    next.remaining < painting.remaining := by
  unfold step at stepped
  split at stepped
  next => cases stepped
  next node rest gray =>
    obtain ⟨colors, written, stepped⟩ := ok_of_bind stepped
    obtain ⟨shaded, succeeded, same⟩ := ok_of_map stepped
    cases same
    rw [remaining_shadeAll succeeded]
    have present : node < painting.colors.size := by
      unfold writeAt at written
      split at written
      next below => exact below
      next => cases written
    have fewer : colors.countP (· = .white) + _ = painting.colors.countP (· = .white) :=
      countP_writeAt written (Array.getElem?_eq_getElem present) rfl
    simp only [remaining, gray, List.length_cons]
    omega

def run (graph : Digraph) (painting : Painting) : Checked Painting :=
  match _stepped : painting.step graph with
  | .error trap => .error trap
  | .ok none => .ok painting
  | .ok (some next) => next.run graph
termination_by painting.remaining
decreasing_by exact remaining_step _stepped

structure Paints (painting : Painting) (graph : Digraph) (marking : Marking) : Prop where
  gray : painting.gray = marking.gray
  white_iff : ∀ node ∈ graph.nodes, painting.colors[node]? = some .white ↔ node ∈ marking.white
  white_mem : ∀ node ∈ marking.white, node ∈ graph.nodes
  gray_mem : ∀ node ∈ marking.gray, node ∈ graph.nodes ∧ node ∉ marking.white
  bounded : ∀ node ∈ graph.nodes, node < painting.colors.size

theorem paints_start {bound : Nat} (bounded : ∀ node ∈ graph.nodes, node < bound) :
    (start bound).Paints graph (.start graph) where
  gray := rfl
  white_iff node present := by simp [start, Marking.start, present, bounded node present]
  white_mem node present := present
  gray_mem node listed := nomatch listed
  bounded node present := by simp [start, bounded node present]

theorem Paints.shade (paints : painting.Paints graph marking) (present : node ∈ graph.nodes) :
    Safe few (·.Paints graph (marking.shade node)) (painting.shade node) := by
  have below := paints.bounded node present
  have white := paints.white_iff node present
  unfold Painting.shade Marking.shade
  refine (safe_readAt (Array.getElem?_eq_getElem below)).bind ?_
  rintro _ rfl
  rw [Array.getElem?_eq_getElem below, Option.some.injEq] at white
  by_cases found : painting.colors[node] = .white
  · rw [if_pos found, if_pos (white.mp found)]
    refine (safe_writeAt .gray below).bind ?_
    rintro _ rfl
    refine ⟨congrArg (node :: ·) paints.gray, fun other inside => ?_, fun other later => ?_, ?_, ?_⟩
    · rw [Array.getElem?_setIfInBounds, if_pos below, NodeSet.mem_erase_iff, ← paints.white_iff other inside]
      by_cases same : node = other
      · simp [same]
      · simp [same, Ne.symm same]
    · exact paints.white_mem other (NodeSet.mem_erase_iff.mp later).2
    · refine List.forall_mem_cons.mpr ⟨⟨present, fun later => ?_⟩, fun other listed => ?_⟩
      · exact (NodeSet.mem_erase_iff.mp later).1 rfl
      · obtain ⟨inside, shaded⟩ := paints.gray_mem other listed
        exact ⟨inside, fun later => shaded (NodeSet.mem_erase_iff.mp later).2⟩
    · intro other inside
      rw [Array.size_setIfInBounds]
      exact paints.bounded other inside
  · rw [if_neg found, if_neg (mt white.mpr found)]
    exact paints

theorem Paints.shadeAll {nodes : List Node} (paints : painting.Paints graph marking)
    (present : ∀ node ∈ nodes, node ∈ graph.nodes) :
    Safe few (·.Paints graph (marking.shadeAll nodes)) (nodes.foldlM Painting.shade painting) := by
  induction nodes generalizing painting marking with
  | nil => exact paints
  | cons node rest ih =>
    obtain ⟨first, later⟩ := List.forall_mem_cons.mp present
    rw [List.foldlM_cons]
    exact (paints.shade first).bind fun next paints => ih paints later

def Closed (graph : Digraph) : Prop :=
  ∀ node ∈ graph.nodes, ∀ successor ∈ graph.successors node, successor ∈ graph.nodes

theorem Paints.step (paints : painting.Paints graph marking) (closed : Closed graph) :
    Safe few (Option.Rel (·.Paints graph ·) · (marking.step graph)) (painting.step graph) := by
  unfold Painting.step Marking.step
  rw [paints.gray]
  cases gray : marking.gray with
  | nil => exact .none
  | cons node rest =>
    have inside := paints.gray_mem
    rw [gray] at inside
    obtain ⟨⟨present, shaded⟩, later⟩ := List.forall_mem_cons.mp inside
    refine (safe_writeAt .black (paints.bounded node present)).bind ?_
    rintro _ rfl
    have blackened : Paints ⟨painting.colors.setIfInBounds node .black, rest⟩ graph
        { marking with gray := rest, black := marking.black.insert node } := by
      refine ⟨rfl, fun other inside => ?_, paints.white_mem, later, fun other inside => ?_⟩
      · rw [Array.getElem?_setIfInBounds, if_pos (paints.bounded node present)]
        by_cases same : node = other
        · subst same
          simp [shaded]
        · rw [if_neg same]
          exact paints.white_iff other inside
      · rw [Array.size_setIfInBounds]
        exact paints.bounded other inside
    exact (blackened.shadeAll (closed node present)).map fun next paints => .some paints

theorem Paints.run (paints : painting.Paints graph marking) (closed : Closed graph) :
    Safe few (·.Paints graph (marking.run graph)) (painting.run graph) := by
  fun_induction Painting.run graph painting generalizing marking with
  | case1 painting trap stepped =>
    have safe : Safe few _ (painting.step graph) := paints.step closed
    rw [stepped] at safe
    exact safe.of_error
  | case2 painting stepped =>
    have safe : Safe few _ (painting.step graph) := paints.step closed
    rw [stepped] at safe
    unfold Marking.run
    split
    next => exact paints
    next next follows =>
      rw [follows] at safe
      cases safe
  | case3 painting next stepped ih =>
    have safe : Safe few _ (painting.step graph) := paints.step closed
    rw [stepped] at safe
    unfold Marking.run
    split
    next stuck =>
      rw [stuck] at safe
      cases safe
    next after follows =>
      rw [follows] at safe
      cases safe with
      | some paints => exact ih paints

end Painting

theorem NodeSet.toList_eq_filter {nodes : NodeSet} {bound : Nat} {listed : Node → Bool}
    (mem_iff : ∀ node, node ∈ nodes ↔ node < bound ∧ listed node = true) :
    nodes.toList = (List.range bound).filter listed := by
  have ascending : nodes.toList.Pairwise (· < ·) :=
    Std.ExtTreeSet.ordered_toList.imp Nat.compare_eq_lt.mp
  have filtered : ((List.range bound).filter listed).Pairwise (· < ·) := List.pairwise_lt_range.filter _
  apply ascending.eq_of_mem_iff filtered
  intro node
  rw [Std.ExtTreeSet.mem_toList, mem_iff, List.mem_filter, List.mem_range]

namespace Arena

def inUse (arena : Arena) : List Slot :=
  (List.range arena.slots.size).filter fun slot => (arena.occupant? slot).isSome

def unmarked (arena : Arena) (heap : Heap) : Checked (List Slot) := do
  let graph := arena.ledger.contentGraph heap
  let shaded ← arena.ledger.roots.foldlM Painting.shade (.start arena.slots.size)
  let painting ← shaded.run graph
  return arena.inUse.filter fun slot => painting.colors[slot]? = some .white

variable {arena : Arena} {ledger : Ledger} {heap : Heap} {slot : Slot} {few : Prop}

theorem Shows.isSome (shows : arena.Shows ledger) (slot : Slot) :
    slot ∈ ledger.occupied ↔ (arena.occupant? slot).isSome := by
  rw [Ledger.mem_occupied, shows.entries]

theorem Shows.lt (shows : arena.Shows ledger) (occupied : slot ∈ ledger.occupied) :
    slot < arena.slots.size := by
  obtain ⟨entry, found⟩ := Option.isSome_iff_exists.mp ((shows.isSome slot).mp occupied)
  exact occupant?_lt found

theorem closed_contentGraph (valid : ledger.Valid) : Painting.Closed (ledger.contentGraph heap) := by
  intro slot _ child listed
  have listed : child ∈ ledger.childSlots heap slot := listed
  unfold Ledger.childSlots at listed
  split at listed
  next => cases listed
  next =>
    obtain ⟨value, _, located⟩ := List.mem_filterMap.mp listed
    obtain ⟨id, _, known⟩ := Option.bind_eq_some_iff.mp located
    exact Ledger.mem_occupied.mpr (valid.occupied known)

theorem Shows.unmarked (shows : arena.Shows ledger) (valid : ledger.Valid) :
    Safe few (· = ledger.dead heap) (arena.unmarked heap) := by
  have bounded : ∀ slot ∈ (ledger.contentGraph heap).nodes, slot < arena.slots.size := fun _ => shows.lt
  have rooted : ∀ slot ∈ ledger.roots, slot ∈ (ledger.contentGraph heap).nodes := by
    intro slot rooted
    obtain ⟨entry, found, _⟩ := Ledger.mem_roots.mp rooted
    exact Ledger.mem_occupied.mpr (by rw [found]; rfl)
  unfold Arena.unmarked
  rw [shows.ledger_eq]
  refine ((Painting.paints_start bounded).shadeAll rooted).bind fun shaded paints => ?_
  refine (paints.run (closed_contentGraph valid)).bind fun painting paints => ?_
  -- White nodes are slots in use, and they are white in the array.
  have listed : ledger.dead heap = (List.range arena.slots.size).filter fun slot =>
      decide (painting.colors[slot]? = some .white) && (arena.occupant? slot).isSome := by
    refine NodeSet.toList_eq_filter fun slot => ?_
    rw [Bool.and_eq_true, decide_eq_true_eq, ← shows.isSome]
    constructor
    · intro white
      have inside := paints.white_mem slot white
      exact ⟨shows.lt inside, (paints.white_iff slot inside).mpr white, inside⟩
    · rintro ⟨_, white, inside⟩
      exact (paints.white_iff slot inside).mp white
  show arena.inUse.filter _ = ledger.dead heap
  rw [listed, inUse, List.filter_filter]

end Arena

end Reclaim
