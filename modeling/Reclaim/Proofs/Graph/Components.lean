import Reclaim.Proofs.Graph.Decomposition
import Reclaim.Proofs.Maps

/-! The search for components is correct. The open nodes lie on the stack in segments, one for
each frame: the node of the frame and those found from it whose own frames have returned. A
frame reaches its segment, and every node of the segment leads back to an earlier open node;
so when the lowest number that a frame has seen is its own, its segment is a component. -/

set_option autoImplicit false

namespace Reclaim

namespace Search

abbrev Numbers := Std.ExtTreeMap Node Nat compare

variable {graph : Digraph} {unvisited : NodeSet} {number : Numbers} {search next : Search}
  {frame parent : Frame} {frames : List Frame} {opened segment below : List Node}
  {node successor : Node} {low : Nat}

/-- Every step of a search is one of five. -/
inductive Move (graph : Digraph) (search : Search) : Search → Prop where
  | enter {node : Node} {low : Nat} {successor : Node} {rest : List Node} {frames : List Frame} :
      search.frames = ⟨node, low, successor :: rest⟩ :: frames → successor ∈ search.unvisited →
      Move graph search ({ search with frames := ⟨node, low, rest⟩ :: frames }.enter graph successor)
  | lower {node : Node} {low : Nat} {successor : Node} {rest : List Node} {frames : List Frame}
      {found : Nat} :
      search.frames = ⟨node, low, successor :: rest⟩ :: frames → successor ∉ search.unvisited →
      search.number[successor]? = some found →
      Move graph search { search with frames := ⟨node, min low found, rest⟩ :: frames }
  | pass {node : Node} {low : Nat} {successor : Node} {rest : List Node} {frames : List Frame} :
      search.frames = ⟨node, low, successor :: rest⟩ :: frames → successor ∉ search.unvisited →
      search.number[successor]? = none →
      Move graph search { search with frames := ⟨node, low, rest⟩ :: frames }
  | complete {node : Node} {low : Nat} {frames : List Frame} :
      search.frames = ⟨node, low, []⟩ :: frames → search.number[node]? = some low →
      Move graph search (({ search with frames }.complete node).lower low)
  | back {node : Node} {low : Nat} {frames : List Frame} :
      search.frames = ⟨node, low, []⟩ :: frames → search.number[node]? ≠ some low →
      Move graph search ({ search with frames }.lower low)

theorem move_of_step (stepped : search.step graph = some next) : Move graph search next := by
  unfold step at stepped
  split at stepped
  next => cases stepped
  next node low successor rest frames framed =>
    simp only at stepped
    split at stepped
    next unvisited =>
      cases stepped
      exact .enter framed unvisited
    next visited =>
      split at stepped
      next found numbered =>
        cases stepped
        exact .lower framed visited numbered
      next unnumbered =>
        cases stepped
        exact .pass framed visited unnumbered
  next node low frames framed =>
    simp only at stepped
    split at stepped
    next numbered =>
      cases stepped
      exact .complete framed numbered
    next different =>
      cases stepped
      exact .back framed different

theorem frames_of_stuck (stuck : search.step graph = none) : search.frames = [] := by
  unfold step at stuck
  split at stuck
  next none => exact none
  next =>
    simp only at stuck
    split at stuck
    · cases stuck
    · split at stuck <;> cases stuck
  next => cases stuck

theorem run_of_stuck (stuck : search.step graph = none) : search.run graph = search := by
  unfold Search.run
  split
  next => rfl
  next next stepped => cases stuck.symm.trans stepped

theorem run_of_step (stepped : search.step graph = some next) :
    search.run graph = next.run graph := by
  conv => lhs; unfold Search.run
  split
  next stuck => cases stepped.symm.trans stuck
  next other moved =>
    cases stepped.symm.trans moved
    rfl

def Before (number : Numbers) (earlier later : Node) : Prop :=
  ∃ first second, number[earlier]? = some first ∧ number[later]? = some second ∧ first < second

/-- All nodes of a list have been found, and those that are open not before the number `low`. -/
def Looked (unvisited : NodeSet) (number : Numbers) (low : Nat) (nodes : List Node) : Prop :=
  ∀ node ∈ nodes, node ∉ unvisited ∧ ∀ found, number[node]? = some found → low ≤ found

structure Standing (graph : Digraph) (unvisited : NodeSet) (number : Numbers) (frame : Frame)
    (segment below : List Node) : Prop where
  low_le : ∀ own, number[frame.node]? = some own → frame.low ≤ own
  anchored : ∃ anchor ∈ frame.node :: below,
    number[anchor]? = some frame.low ∧ graph.Reach frame.node anchor
  looked : ∃ seen, graph.successors frame.node = seen ++ frame.rest ∧
    Looked unvisited number frame.low seen
  segment_reached : ∀ node ∈ segment, graph.Reach frame.node node
  segment_looked : ∀ node ∈ segment, Looked unvisited number frame.low (graph.successors node)
  segment_returns : ∀ node ∈ segment, ∃ earlier ∈ segment ++ frame.node :: below,
    Before number earlier node ∧ graph.Reach node earlier

/-- The open nodes are the segments of the frames, and each frame was called from the next. -/
inductive Stacked (graph : Digraph) (unvisited : NodeSet) (number : Numbers) :
    List Frame → List Node → Prop where
  | nil : Stacked graph unvisited number [] []
  | cons {frame : Frame} {frames : List Frame} {segment below : List Node} :
      Stacked graph unvisited number frames below →
      Standing graph unvisited number frame segment below →
      (∀ parent ∈ frames.head?, graph.Reach parent.node frame.node) →
      Stacked graph unvisited number (frame :: frames) (segment ++ frame.node :: below)

theorem Stacked.parts (stacked : Stacked graph unvisited number (frame :: frames) opened) :
    ∃ segment below, opened = segment ++ frame.node :: below ∧
      Stacked graph unvisited number frames below ∧
      Standing graph unvisited number frame segment below ∧
      ∀ parent ∈ frames.head?, graph.Reach parent.node frame.node := by
  cases stacked with
  | cons stacked standing called => exact ⟨_, _, rfl, stacked, standing, called⟩

theorem Looked.mono {nodes : List Node} {less : Nat} (looked : Looked unvisited number low nodes)
    (le : less ≤ low) : Looked unvisited number less nodes :=
  fun node member => ⟨(looked node member).1,
    fun found numbered => Nat.le_trans le ((looked node member).2 found numbered)⟩

theorem Looked.append {nodes others : List Node} (first : Looked unvisited number low nodes)
    (second : Looked unvisited number low others) :
    Looked unvisited number low (nodes ++ others) := by
  intro node member
  rcases List.mem_append.mp member with member | member
  · exact first node member
  · exact second node member

section Change

variable {unvisited' : NodeSet} {number' : Numbers}

theorem Looked.change {nodes : List Node} (looked : Looked unvisited number low nodes)
    (fewer : ∀ node ∈ unvisited', node ∈ unvisited)
    (found : ∀ node ∉ unvisited, ∀ own, number'[node]? = some own → number[node]? = some own) :
    Looked unvisited' number' low nodes := by
  intro node member
  obtain ⟨visited, later⟩ := looked node member
  exact ⟨fun white => visited (fewer node white),
    fun own numbered => later own (found node visited own numbered)⟩

/-- Finding a node and closing others leave what is known of the frames that stay. -/
theorem Standing.change (standing : Standing graph unvisited number frame segment below)
    (fewer : ∀ node ∈ unvisited', node ∈ unvisited)
    (found : ∀ node ∉ unvisited, ∀ own, number'[node]? = some own → number[node]? = some own)
    (kept : ∀ node ∈ segment ++ frame.node :: below, number'[node]? = number[node]?) :
    Standing graph unvisited' number' frame segment below where
  low_le own numbered := standing.low_le own (by rwa [kept frame.node (by simp)] at numbered)
  anchored := by
    obtain ⟨anchor, member, numbered, path⟩ := standing.anchored
    exact ⟨anchor, member, by rwa [kept anchor (List.mem_append_right _ member)], path⟩
  looked := by
    obtain ⟨seen, parts, looked⟩ := standing.looked
    exact ⟨seen, parts, looked.change fewer found⟩
  segment_reached := standing.segment_reached
  segment_looked node member := (standing.segment_looked node member).change fewer found
  segment_returns node member := by
    obtain ⟨earlier, open', ⟨first, second, numbered, own, less⟩, path⟩ :=
      standing.segment_returns node member
    refine ⟨earlier, open', ⟨first, second, ?_, ?_, less⟩, path⟩
    · rwa [kept earlier open']
    · rwa [kept node (List.mem_append_left _ member)]

theorem Stacked.change (stacked : Stacked graph unvisited number frames opened)
    (fewer : ∀ node ∈ unvisited', node ∈ unvisited)
    (found : ∀ node ∉ unvisited, ∀ own, number'[node]? = some own → number[node]? = some own)
    (kept : ∀ node ∈ opened, number'[node]? = number[node]?) :
    Stacked graph unvisited' number' frames opened := by
  induction stacked with
  | nil => exact .nil
  | cons stacked standing called ih =>
    refine .cons (ih fun node member => kept node ?_) (standing.change fewer found kept) called
    exact List.mem_append_right _ (List.mem_cons_of_mem _ member)

end Change

theorem Stacked.pop {rest : List Node} (visited : successor ∉ unvisited)
    (later : ∀ found, number[successor]? = some found → low ≤ found)
    (stacked : Stacked graph unvisited number (⟨node, low, successor :: rest⟩ :: frames) opened) :
    Stacked graph unvisited number (⟨node, low, rest⟩ :: frames) opened := by
  cases stacked with
  | cons stacked standing called =>
    obtain ⟨seen, parts, looked⟩ := standing.looked
    have one : Looked unvisited number low [successor] := by
      intro other member
      rw [List.mem_singleton] at member
      exact member ▸ ⟨visited, later⟩
    exact .cons stacked { standing with
      looked := ⟨seen ++ [successor], by simp [parts], looked.append one⟩ } called

theorem Stacked.lower {anchor : Node} {found : Nat}
    (descending : opened.Pairwise fun later earlier => Before number earlier later)
    (stacked : Stacked graph unvisited number (frame :: frames) opened)
    (member : anchor ∈ opened) (numbered : number[anchor]? = some found)
    (path : graph.Reach frame.node anchor) :
    Stacked graph unvisited number ({ frame with low := min frame.low found } :: frames) opened := by
  cases stacked with
  | cons stacked standing called =>
    refine .cons stacked ?_ called
    refine
      { low_le := fun own numbered => Nat.le_trans (Nat.min_le_left _ _) (standing.low_le own numbered)
        anchored := ?_
        looked := ?_
        segment_reached := standing.segment_reached
        segment_looked := fun node member =>
          (standing.segment_looked node member).mono (Nat.min_le_left _ _)
        segment_returns := standing.segment_returns }
    · by_cases le : frame.low ≤ found
      · rw [Nat.min_eq_left le]
        exact standing.anchored
      · rw [Nat.min_eq_right (by omega)]
        refine ⟨anchor, ?_, numbered, path⟩
        -- An open node of the segment has a number above that of the frame, and so above `low`.
        rcases List.mem_append.mp member with above | below
        · obtain ⟨first, second, own, other, less⟩ :=
            (List.pairwise_append.mp descending).2.2 anchor above frame.node (by simp)
          have bound := standing.low_le first own
          rw [numbered] at other
          cases other
          omega
        · exact below
    · obtain ⟨seen, parts, looked⟩ := standing.looked
      exact ⟨seen, parts, looked.mono (Nat.min_le_left _ _)⟩

/-- A frame that returns leaves its segment and its node to the frame that called it. -/
theorem Stacked.merge (standing : Standing graph unvisited number frame segment below)
    (stacked : Stacked graph unvisited number (parent :: frames) below)
    (returned : frame.rest = []) (called : graph.Reach parent.node frame.node)
    (le : parent.low ≤ frame.low)
    (leads : ∃ earlier ∈ below, Before number earlier frame.node ∧ graph.Reach frame.node earlier) :
    Stacked graph unvisited number (parent :: frames) (segment ++ frame.node :: below) := by
  cases stacked with
  | @cons _ _ segment' below' stacked outer called' =>
    -- The segment of the caller grows by the segment and the node of the frame.
    have shifted : segment ++ frame.node :: (segment' ++ parent.node :: below') =
        (segment ++ frame.node :: segment') ++ parent.node :: below' := by simp
    rw [shifted]
    refine .cons stacked ?_ called'
    refine { outer with segment_reached := ?_, segment_looked := ?_, segment_returns := ?_ }
    · intro node member
      rcases List.mem_append.mp member with above | member
      · exact called.trans (standing.segment_reached node above)
      · rcases List.mem_cons.mp member with rfl | inside
        · exact called
        · exact outer.segment_reached node inside
    · intro node member
      rcases List.mem_append.mp member with above | member
      · exact (standing.segment_looked node above).mono le
      · rcases List.mem_cons.mp member with rfl | inside
        · obtain ⟨seen, parts, looked⟩ := standing.looked
          rw [parts, returned, List.append_nil]
          exact looked.mono le
        · exact outer.segment_looked node inside
    · intro node member
      rcases List.mem_append.mp member with above | member
      · rw [← shifted]
        exact standing.segment_returns node above
      · rcases List.mem_cons.mp member with rfl | inside
        · obtain ⟨earlier, open', before, path⟩ := leads
          rw [← shifted]
          exact ⟨earlier, List.mem_append_right _ (List.mem_cons_of_mem _ open'), before, path⟩
        · obtain ⟨earlier, open', before, path⟩ := outer.segment_returns node inside
          refine ⟨earlier, ?_, before, path⟩
          rw [← shifted]
          exact List.mem_append_right _ (List.mem_cons_of_mem _ open')

def done (search : Search) : List Node := search.components.toList.flatten

/-- Every node is unvisited, open or done; no edge leads from a done node to another. -/
structure Sound (graph : Digraph) (search : Search) : Prop where
  stacked : Stacked graph search.unvisited search.number search.frames search.opened
  numbered : ∀ node ∈ search.opened, ∃ own, search.number[node]? = some own ∧ own < search.discovered
  opened_of_number : ∀ node own, search.number[node]? = some own → node ∈ search.opened
  descending : search.opened.Pairwise fun later earlier => Before search.number earlier later
  unvisited_mem : ∀ node ∈ search.unvisited, node ∈ graph.nodes
  covered : ∀ node ∈ graph.nodes,
    node ∈ search.unvisited ∨ node ∈ search.opened ∨ node ∈ search.done
  opened_mem : ∀ node ∈ search.opened, node ∈ graph.nodes ∧ node ∉ search.unvisited
  done_mem : ∀ node ∈ search.done,
    node ∈ graph.nodes ∧ node ∉ search.unvisited ∧ node ∉ search.opened
  closed : ∀ source target, graph.Edge source target → source ∈ search.done → target ∈ search.done
  arranged : graph.Arrangement search.components.toList

theorem sound_start (graph : Digraph) : (start graph).Sound graph where
  stacked := .nil
  numbered node member := by simp [start] at member
  opened_of_number node own numbered := by simp [start] at numbered
  descending := .nil
  unvisited_mem node member := member
  covered node present := .inl present
  opened_mem node member := by simp [start] at member
  done_mem node member := by simp [done, start] at member
  closed source target edge member := by simp [done, start] at member
  arranged := ⟨by simp [start], by simp [start], by simp [start]⟩

theorem Sound.reframe {frames : List Frame} (sound : search.Sound graph)
    (stacked : Stacked graph search.unvisited search.number frames search.opened) :
    Sound graph { search with frames } :=
  { sound with stacked }

theorem Sound.stacked_insert (sound : search.Sound graph) (white : node ∈ search.unvisited) :
    Stacked graph (search.unvisited.erase node) (search.number.insert node search.discovered)
      search.frames search.opened := by
  apply sound.stacked.change
  · exact fun other member => (NodeSet.mem_erase_iff.mp member).2
  · intro other visited own numbered
    have different : node ≠ other := fun same => visited (same ▸ white)
    rwa [getElem?_insert_key, if_neg different] at numbered
  · intro other member
    have different : node ≠ other := fun same => (sound.opened_mem other member).2 (same ▸ white)
    rw [getElem?_insert_key, if_neg different]

theorem Sound.enter {frames : List Frame} (sound : search.Sound graph)
    (white : node ∈ search.unvisited)
    (stacked : Stacked graph (search.unvisited.erase node)
      (search.number.insert node search.discovered) frames search.opened)
    (called : ∀ parent ∈ frames.head?, graph.Reach parent.node node) :
    Sound graph ({ search with frames }.enter graph node) := by
  have present := sound.unvisited_mem node white
  have different {other : Node} (member : other ∈ search.opened) : node ≠ other :=
    fun same => (sound.opened_mem other member).2 (same ▸ white)
  have kept {other : Node} (member : other ∈ search.opened) :
      (search.number.insert node search.discovered)[other]? = search.number[other]? := by
    rw [getElem?_insert_key, if_neg (different member)]
  have own : (search.number.insert node search.discovered)[node]? = some search.discovered := by
    rw [getElem?_insert_key, if_pos rfl]
  constructor
  -- The new frame is its own anchor, has an empty segment and has looked at nothing yet.
  case stacked =>
    have standing : Standing graph (search.unvisited.erase node)
        (search.number.insert node search.discovered)
        ⟨node, search.discovered, graph.successors node⟩ [] search.opened :=
      { low_le := fun found numbered => Nat.le_of_eq (Option.some.inj (own.symm.trans numbered))
        anchored := ⟨node, by simp, own, .refl present⟩
        looked := ⟨[], rfl, by simp [Looked]⟩
        segment_reached := by simp
        segment_looked := by simp
        segment_returns := by simp }
    exact .cons stacked standing called
  case numbered =>
    intro other member
    rcases List.mem_cons.mp member with rfl | member
    · exact ⟨_, own, Nat.lt_succ_self _⟩
    · obtain ⟨found, numbered, less⟩ := sound.numbered other member
      exact ⟨found, (kept member).trans numbered, Nat.lt_succ_of_lt less⟩
  case opened_of_number =>
    intro other found numbered
    by_cases same : node = other
    · exact same ▸ List.mem_cons_self
    · have numbered : search.number[other]? = some found := by
        rw [← numbered]
        exact (getElem?_insert_key.trans (if_neg same)).symm
      exact List.mem_cons_of_mem _ (sound.opened_of_number other found numbered)
  case descending =>
    refine List.pairwise_cons.mpr ⟨fun other member => ?_, ?_⟩
    · obtain ⟨found, numbered, less⟩ := sound.numbered other member
      exact ⟨found, search.discovered, (kept member).trans numbered, own, less⟩
    · refine sound.descending.imp_of_mem fun laterMem earlierMem before => ?_
      obtain ⟨first, second, earlier, later, less⟩ := before
      exact ⟨first, second, (kept earlierMem).trans earlier, (kept laterMem).trans later, less⟩
  case unvisited_mem =>
    exact fun other member => sound.unvisited_mem other (NodeSet.mem_erase_iff.mp member).2
  case covered =>
    intro other present
    by_cases same : other = node
    · exact .inr (.inl (same ▸ List.mem_cons_self))
    · rcases sound.covered other present with white | member | closed
      · exact .inl (NodeSet.mem_erase_iff.mpr ⟨same, white⟩)
      · exact .inr (.inl (List.mem_cons_of_mem _ member))
      · exact .inr (.inr closed)
  case opened_mem =>
    intro other member
    rcases List.mem_cons.mp member with rfl | member
    · exact ⟨present, fun white => (NodeSet.mem_erase_iff.mp white).1 rfl⟩
    · obtain ⟨present, visited⟩ := sound.opened_mem other member
      exact ⟨present, fun white => visited (NodeSet.mem_erase_iff.mp white).2⟩
  case done_mem =>
    intro other closed
    obtain ⟨present, visited, shut⟩ := sound.done_mem other closed
    refine ⟨present, fun white => visited (NodeSet.mem_erase_iff.mp white).2, fun member => ?_⟩
    rcases List.mem_cons.mp member with rfl | member
    · exact visited white
    · exact shut member
  case closed => exact sound.closed
  case arranged => exact sound.arranged

theorem number_foldl_erase {number : Numbers} {members : List Node} {other : Node} :
    (members.foldl (·.erase ·) number)[other]? =
      if other ∈ members then none else number[other]? := by
  induction members generalizing number with
  | nil => simp
  | cons node rest ih =>
    rw [List.foldl_cons, ih, getElem?_erase_key]
    by_cases member : other ∈ rest
    · simp [member]
    · by_cases same : node = other
      · simp [same]
      · simp [member, same, Ne.symm same]

theorem complete_eq (parts : search.opened = segment ++ node :: below) (apart : node ∉ segment) :
    search.complete node =
      { search with
        number := (segment ++ [node]).foldl (·.erase ·) search.number
        opened := below
        components := search.components.push (segment ++ [node]) } := by
  have before : ∀ other ∈ segment, (other != node) = true :=
    fun other member => bne_iff_ne.mpr fun same => apart (same ▸ member)
  have taken : search.opened.takeWhile (· != node) = segment := by
    rw [parts, List.takeWhile_append_of_pos before]
    simp
  have dropped : search.opened.dropWhile (· != node) = node :: below := by
    rw [parts, List.dropWhile_append_of_pos before]
    simp
  unfold complete
  rw [taken, dropped]
  rfl

theorem Sound.nodup_opened (sound : search.Sound graph) : search.opened.Nodup := by
  refine sound.descending.imp ?_
  rintro later earlier ⟨first, second, found, other, less⟩ rfl
  rw [found] at other
  cases other
  omega

theorem Sound.before_of_below (sound : search.Sound graph)
    (parts : search.opened = segment ++ node :: below) :
    (∀ other ∈ below, Before search.number other node) ∧
      below.Pairwise fun later earlier => Before search.number earlier later := by
  have descending := sound.descending
  rw [parts] at descending
  exact List.pairwise_cons.mp (List.pairwise_append.mp descending).2.1

section Complete

variable (sound : search.Sound graph) (numbered : search.number[node]? = some low)
  (standing : Standing graph search.unvisited search.number ⟨node, low, []⟩ segment below)
  (parts : search.opened = segment ++ node :: below)

include sound numbered standing parts

theorem successor_mem {source target : Node} (edge : graph.Edge source target)
    (member : source ∈ segment ++ [node]) :
    target ∈ segment ++ [node] ∨ target ∈ search.done := by
  have looked : Looked search.unvisited search.number low (graph.successors source) := by
    rcases List.mem_append.mp member with inside | last
    · exact standing.segment_looked source inside
    · obtain ⟨seen, listed, looked⟩ := standing.looked
      rw [List.mem_singleton.mp last, listed, List.append_nil]
      exact looked
  obtain ⟨visited, later⟩ := looked target edge.listed
  rcases sound.covered target edge.target_mem with white | member | closed
  · exact absurd white visited
  · have joined : search.opened = (segment ++ [node]) ++ below := by simp [parts]
    rw [joined] at member
    -- A node below was found before the frame, but nothing looked at has a number under `low`.
    refine .inl ((List.mem_append.mp member).resolve_right fun under => ?_)
    obtain ⟨first, second, own, other, less⟩ := (sound.before_of_below parts).1 target under
    have bound := later first own
    rw [numbered] at other
    cases other
    omega
  · exact .inr closed

theorem reach_frame : ∀ source ∈ segment ++ [node], graph.Reach source node := by
  have present := (sound.opened_mem node (by simp [parts])).1
  -- By induction on the number of the node. The earlier node that it leads back to is in the segment
  -- as well, as a path leaves the segment only into done nodes.
  have returns (number : Nat) : ∀ source ∈ segment ++ [node],
      search.number[source]? = some number → graph.Reach source node := by
    induction number using Nat.strongRecOn with
    | _ number ih =>
      intro source member own
      rcases List.mem_append.mp member with inside | last
      · obtain ⟨earlier, open', ⟨first, second, found, other, less⟩, path⟩ :=
          standing.segment_returns source inside
        rw [own] at other
        cases other
        have closed := path.mem_of_closed
          (fun target => target ∈ segment ++ [node] ∨ target ∈ search.done)
          (fun _ _ edge within => within.elim
            (successor_mem sound numbered standing parts edge)
            fun shut => .inr (sound.closed _ _ edge shut))
          (.inl member)
        have within := closed.resolve_right fun shut =>
          (sound.done_mem earlier shut).2.2 (parts ▸ open')
        exact path.trans (ih first less earlier within found)
      · rw [List.mem_singleton.mp last]
        exact .refl present
  intro source member
  have joined : search.opened = (segment ++ [node]) ++ below := by simp [parts]
  have listed : source ∈ search.opened := joined ▸ List.mem_append_left _ member
  obtain ⟨own, found, _⟩ := sound.numbered source listed
  exact returns own source member found

theorem arrangement_push :
    graph.Arrangement (search.components.push (segment ++ [node])).toList := by
  have joined : search.opened = (segment ++ [node]) ++ below := by simp [parts]
  have listed {member : Node} (inside : member ∈ segment ++ [node]) : member ∈ search.opened :=
    joined ▸ List.mem_append_left _ inside
  have nodup : (segment ++ [node]).Nodup :=
    sound.nodup_opened.sublist (joined ▸ List.sublist_append_left _ _)
  rw [Array.toList_push]
  constructor
  · rw [List.flatten_append, List.flatten_singleton, List.nodup_append]
    refine ⟨sound.arranged.nodup, nodup, fun old oldMem new newMem same => ?_⟩
    exact (sound.done_mem old oldMem).2.2 (same ▸ listed newMem)
  · intro component member source sourceMem target targetMem
    rcases List.mem_append.mp member with old | new
    · exact sound.arranged.connected component old source sourceMem target targetMem
    · rw [List.mem_singleton.mp new] at sourceMem targetMem
      refine (reach_frame sound numbered standing parts source sourceMem).trans ?_
      rcases List.mem_append.mp targetMem with inside | last
      · exact standing.segment_reached target inside
      · rw [List.mem_singleton.mp last]
        exact .refl (sound.opened_mem node (by simp [parts])).1
  · refine List.pairwise_append.mpr ⟨sound.arranged.ordered, List.pairwise_singleton _ _, ?_⟩
    intro earlier earlierMem later laterMem source sourceMem target targetMem edge
    rw [List.mem_singleton.mp laterMem] at targetMem
    have shut := sound.closed source target edge
      (List.mem_flatten.mpr ⟨earlier, earlierMem, sourceMem⟩)
    exact (sound.done_mem target shut).2.2 (listed targetMem)

theorem Sound.complete (stacked : Stacked graph search.unvisited search.number frames below) :
    Sound graph ({ search with frames }.complete node) := by
  have joined : search.opened = (segment ++ [node]) ++ below := by simp [parts]
  obtain ⟨membersNodup, belowNodup, apart⟩ := List.nodup_append.mp (joined ▸ sound.nodup_opened)
  have notBelow {other : Node} (member : other ∈ below) : other ∉ segment ++ [node] :=
    fun removed => apart other removed other member rfl
  have under {other : Node} (member : other ∈ below) : other ∈ search.opened :=
    joined ▸ List.mem_append_right _ member
  have kept {other : Node} (member : other ∈ below) :
      ((segment ++ [node]).foldl (·.erase ·) search.number)[other]? = search.number[other]? := by
    rw [number_foldl_erase, if_neg (notBelow member)]
  have done_iff (other : Node) :
      other ∈ (search.components.push (segment ++ [node])).toList.flatten ↔
        other ∈ search.done ∨ other ∈ segment ++ [node] := by
    rw [Array.toList_push, List.flatten_append, List.flatten_singleton, List.mem_append]
    rfl
  have fresh : node ∉ segment := fun member =>
    (List.nodup_append.mp membersNodup).2.2 node member node (by simp) rfl
  have completed : ({ search with frames } : Search).complete node =
      { search with
        frames
        number := (segment ++ [node]).foldl (·.erase ·) search.number
        opened := below
        components := search.components.push (segment ++ [node]) } := complete_eq parts fresh
  rw [completed]
  constructor
  -- The frames below keep their standing: they only speak of open nodes, and those keep their numbers.
  case stacked =>
    apply stacked.change
    · exact fun other member => member
    · intro other _ own found
      rw [number_foldl_erase] at found
      split at found
      · cases found
      · exact found
    · exact fun other member => kept member
  case numbered =>
    intro other member
    obtain ⟨own, found, less⟩ := sound.numbered other (under member)
    exact ⟨own, (kept member).trans found, less⟩
  case opened_of_number =>
    intro other own found
    rw [number_foldl_erase] at found
    split at found
    next => cases found
    next stays =>
      have member := sound.opened_of_number other own found
      rw [joined] at member
      exact (List.mem_append.mp member).resolve_left stays
  case descending =>
    have descending := sound.descending
    rw [joined] at descending
    refine (List.pairwise_append.mp descending).2.1.imp_of_mem fun laterMem earlierMem before => ?_
    obtain ⟨first, second, earlier, later, less⟩ := before
    exact ⟨first, second, (kept earlierMem).trans earlier, (kept laterMem).trans later, less⟩
  case unvisited_mem => exact sound.unvisited_mem
  case covered =>
    intro other present
    rcases sound.covered other present with white | member | shut
    · exact .inl white
    · rw [joined] at member
      rcases List.mem_append.mp member with removed | stays
      · exact .inr (.inr ((done_iff other).mpr (.inr removed)))
      · exact .inr (.inl stays)
    · exact .inr (.inr ((done_iff other).mpr (.inl shut)))
  case opened_mem => exact fun other member => sound.opened_mem other (under member)
  case done_mem =>
    intro other member
    rcases (done_iff other).mp member with shut | removed
    · obtain ⟨present, visited, closed⟩ := sound.done_mem other shut
      exact ⟨present, visited, fun stays => closed (under stays)⟩
    · obtain ⟨present, visited⟩ := sound.opened_mem other (joined ▸ List.mem_append_left _ removed)
      exact ⟨present, visited, fun stays => notBelow stays removed⟩
  case closed =>
    intro source target edge member
    rw [done, done_iff]
    rcases (done_iff source).mp member with shut | removed
    · exact .inl (sound.closed source target edge shut)
    · exact (successor_mem sound numbered standing parts edge removed).symm
  case arranged => exact arrangement_push sound numbered standing parts

end Complete

/-- No frame is lowered by the number of a node that was found after its own. -/
theorem Stacked.lower_eq {below : List Node} (low : Nat)
    (stacked : Stacked graph unvisited number frames below)
    (later : ∀ other ∈ below, ∃ own, number[other]? = some own ∧ own ≤ low) :
    frames.modifyHead (fun frame => { frame with low := min frame.low low }) = frames := by
  cases stacked with
  | nil => rfl
  | @cons frame _ _ _ _ standing _ =>
    obtain ⟨own, found, le⟩ := later frame.node (by simp)
    have bound := Nat.le_trans (standing.low_le own found) le
    rw [List.modifyHead_cons, Nat.min_eq_left bound]

theorem Sound.edge {rest : List Node} (sound : search.Sound graph)
    (framed : search.frames = ⟨node, low, successor :: rest⟩ :: frames)
    (present : successor ∈ graph.nodes) : graph.Edge node successor := by
  obtain ⟨segment, below, parts, _, standing, _⟩ := (framed ▸ sound.stacked).parts
  obtain ⟨seen, listed, _⟩ := standing.looked
  exact ⟨(sound.opened_mem node (by simp [parts])).1, present, by simp [listed]⟩

theorem Sound.low_lt {rest : List Node} (sound : search.Sound graph)
    (framed : search.frames = ⟨node, low, rest⟩ :: frames) : low < search.discovered := by
  obtain ⟨segment, below, parts, _, standing, _⟩ := (framed ▸ sound.stacked).parts
  obtain ⟨own, numbered, less⟩ := sound.numbered node (by simp [parts])
  exact Nat.lt_of_le_of_lt (standing.low_le own numbered) less

theorem Sound.move (sound : search.Sound graph) (move : Move graph search next) :
    next.Sound graph := by
  cases move with
  | @enter node low successor rest frames framed white =>
    have fresh := sound.stacked_insert white
    rw [framed] at fresh
    apply sound.enter white
    · refine fresh.pop (fun white => (NodeSet.mem_erase_iff.mp white).1 rfl) fun own numbered => ?_
      rw [getElem?_insert_key, if_pos rfl] at numbered
      exact Nat.le_of_lt (Option.some.inj numbered ▸ sound.low_lt framed)
    · intro parent same
      cases same
      exact (sound.edge framed (sound.unvisited_mem successor white)).reach
  | @lower node low successor rest frames found framed visited numbered =>
    have member := sound.opened_of_number successor found numbered
    have lowered := (framed ▸ sound.stacked).lower sound.descending member numbered
      (sound.edge framed (sound.opened_mem successor member).1).reach
    apply sound.reframe
    refine lowered.pop visited fun own known => ?_
    rw [numbered] at known
    cases known
    exact Nat.min_le_right low found
  | @pass node low successor rest frames framed visited unnumbered =>
    apply sound.reframe
    refine (framed ▸ sound.stacked).pop visited fun own known => ?_
    rw [unnumbered] at known
    cases known
  | @complete node low frames framed numbered =>
    obtain ⟨segment, below, parts, stacked, standing, _⟩ := (framed ▸ sound.stacked).parts
    have completed := sound.complete numbered standing parts stacked
    -- The frame below was lowered already by all that it can learn from a completed component.
    have lowered := stacked.lower_eq low fun other under => by
      obtain ⟨first, second, found, own, less⟩ := (sound.before_of_below parts).1 other under
      rw [numbered] at own
      cases own
      exact ⟨first, found, Nat.le_of_lt less⟩
    unfold Search.lower
    exact completed.reframe (lowered.symm ▸ completed.stacked)
  | @back node low frames framed different =>
    obtain ⟨segment, below, parts, stacked, standing, called⟩ := (framed ▸ sound.stacked).parts
    obtain ⟨anchor, anchorMem, numbered, path⟩ := standing.anchored
    -- The anchor is not the node itself, whose number is above `low`.
    have under : anchor ∈ below := by
      rcases List.mem_cons.mp anchorMem with rfl | under
      · exact absurd numbered different
      · exact under
    obtain ⟨own, known, _⟩ := sound.numbered node (by simp [parts])
    have less : low < own := by
      have bound := standing.low_le own known
      simp only at bound
      have unequal : low ≠ own := fun same => different (same ▸ known)
      omega
    cases frames with
    -- The last frame has nothing below it, so it completes a component and does not return here.
    | nil =>
      cases stacked
      cases under
    | cons parent outer =>
      have caller := called parent rfl
      have lowered := stacked.lower (sound.before_of_below parts).2 under numbered (caller.trans path)
      have merged := Stacked.merge standing lowered rfl caller (Nat.min_le_right parent.low low)
        ⟨anchor, under, ⟨low, own, numbered, known, less⟩, path⟩
      exact sound.reframe (parts ▸ merged)

theorem unvisited_of_move (move : Move graph search next) (white : node ∈ next.unvisited) :
    node ∈ search.unvisited := by
  cases move with
  | enter _ _ => exact (NodeSet.mem_erase_iff.mp white).2
  | _ => exact white

theorem Sound.run (sound : search.Sound graph) :
    (search.run graph).Sound graph ∧ (search.run graph).frames = [] ∧
      ∀ node ∈ (search.run graph).unvisited, node ∈ search.unvisited := by
  fun_induction Search.run graph search with
  | case1 search stuck => exact ⟨sound, frames_of_stuck stuck, fun _ white => white⟩
  | case2 search next stepped ih =>
    have move := move_of_step stepped
    obtain ⟨sound, idle, fewer⟩ := ih (sound.move move)
    exact ⟨sound, idle, fun node white => unvisited_of_move move (fewer node white)⟩

theorem Sound.visit (node : Node) (sound : search.Sound graph) (idle : search.frames = []) :
    (search.visit graph node).Sound graph ∧ (search.visit graph node).frames = [] ∧
      ∀ other ∈ (search.visit graph node).unvisited, other ∈ search.unvisited ∧ other ≠ node := by
  unfold Search.visit
  split
  next white =>
    have fresh := sound.stacked_insert white
    have entered : (search.enter graph node).Sound graph :=
      sound.enter white fresh (by simp [idle])
    obtain ⟨sound, idle, fewer⟩ := entered.run
    refine ⟨sound, idle, fun other white => ?_⟩
    obtain ⟨different, white⟩ := NodeSet.mem_erase_iff.mp (fewer other white)
    exact ⟨white, different⟩
  next visited => exact ⟨sound, idle, fun other white => ⟨white, fun same => visited (same ▸ white)⟩⟩

theorem Sound.visitAll (roots : List Node) (sound : search.Sound graph)
    (idle : search.frames = []) :
    (roots.foldl (Search.visit graph) search).Sound graph ∧
      (roots.foldl (Search.visit graph) search).frames = [] ∧
      ∀ other ∈ (roots.foldl (Search.visit graph) search).unvisited,
        other ∈ search.unvisited ∧ other ∉ roots := by
  induction roots generalizing search with
  | nil => exact ⟨sound, idle, fun other white => ⟨white, List.not_mem_nil⟩⟩
  | cons root rest ih =>
    obtain ⟨visited, idle, fewer⟩ := sound.visit root idle
    obtain ⟨sound, idle, others⟩ := ih visited idle
    refine ⟨sound, idle, fun other white => ?_⟩
    obtain ⟨white, unlisted⟩ := others other white
    obtain ⟨white, different⟩ := fewer other white
    exact ⟨white, fun member =>
      (List.mem_cons.mp member).elim different unlisted⟩

end Search

/-- The search computes a decomposition of every graph. -/
theorem Digraph.decomposition_components (graph : Digraph) :
    graph.Decomposition graph.components := by
  obtain ⟨sound, idle, visited⟩ := (Search.sound_start graph).visitAll graph.nodes.toList rfl
  -- Without frames no node is open, and every node has been visited, so all are done.
  have closed : (graph.nodes.toList.foldl (Search.visit graph) (.start graph)).opened = [] := by
    have stacked := sound.stacked
    rw [idle] at stacked
    generalize opened : (graph.nodes.toList.foldl (Search.visit graph) (.start graph)).opened = nodes
      at stacked
    cases stacked
    rfl
  refine { sound.arranged with mem_iff := fun node => ⟨fun member => (sound.done_mem node member).1, ?_⟩ }
  intro present
  rcases sound.covered node present with white | member | done
  · exact absurd (Std.ExtTreeSet.mem_toList.mpr present) (visited node white).2
  · rw [closed] at member
    cases member
  · exact done

end Reclaim
