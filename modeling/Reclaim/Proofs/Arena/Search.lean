import Reclaim.Proofs.Arena.Descent
import Reclaim.Proofs.Arena.Marking

/-! The search on arrays does what the search on sets and maps does, step by step. Whenever it looks at a
place of an array, that place belongs to a node of the graph. -/

set_option autoImplicit false

namespace Reclaim

namespace Descent

variable {graph : Digraph} {bound : Nat} {descent : Descent} {search : Search} {node successor : Node}
  {few : Prop} {low : Array Nat} {visits : List Visit} {frames : List Frame}
  {buffer segment below rest : List Node} {lowest number : Nat}

/-- Each visit is a frame. The buffer holds the successors of the visits below, and on top of them those
of the visit itself: what it has seen and what it has still to look at. -/
inductive Laid (low : Array Nat) : List Visit → List Node → List Frame → Prop where
  | nil {buffer : List Node} : Laid low [] buffer []
  | cons {visits : List Visit} {frames : List Frame} {buffer seen rest : List Node} {node : Node}
      {lowest : Nat} :
      Laid low visits buffer frames → low[node]? = some lowest →
      Laid low (⟨node, buffer.length, buffer.length + seen.length⟩ :: visits) (buffer ++ seen ++ rest)
        (⟨node, lowest, rest⟩ :: frames)

namespace Laid

theorem write (number : Nat) (laid : Laid low visits buffer frames) (apart : ∀ frame ∈ frames, frame.node ≠ node) :
    Laid (low.setIfInBounds node number) visits buffer frames := by
  induction laid with
  | nil => exact .nil
  | cons _ known ih =>
    obtain ⟨here, others⟩ := List.forall_mem_cons.mp apart
    refine .cons (ih others) ?_
    rw [Array.getElem?_setIfInBounds, if_neg (Ne.symm here)]
    exact known

theorem lower (number : Nat) (laid : Laid low visits buffer (⟨node, lowest, rest⟩ :: frames))
    (apart : ∀ frame ∈ frames, frame.node ≠ node) (below : node < low.size) :
    Laid (low.setIfInBounds node number) visits buffer (⟨node, number, rest⟩ :: frames) := by
  cases laid with
  | cons laid _ =>
    refine .cons (laid.write number apart) ?_
    rw [Array.getElem?_setIfInBounds, if_pos rfl, if_pos below]

theorem push (laid : Laid low visits buffer frames) (known : low[node]? = some lowest) :
    Laid low (⟨node, buffer.length, buffer.length⟩ :: visits) (buffer ++ rest)
      (⟨node, lowest, rest⟩ :: frames) := by
  have pushed := @Laid.cons low visits frames buffer [] rest node lowest laid known
  rwa [List.append_nil, List.length_nil, Nat.add_zero] at pushed

theorem visits_nil (laid : Laid low visits buffer []) : visits = [] := by
  cases laid
  rfl

theorem visits_cons (laid : Laid low visits buffer (⟨node, lowest, rest⟩ :: frames)) :
    ∃ start place more, visits = ⟨node, start, place⟩ :: more := by
  cases laid
  exact ⟨_, _, _, rfl⟩

theorem known (laid : Laid low visits buffer (⟨node, lowest, rest⟩ :: frames)) :
    low[node]? = some lowest := by
  cases laid with
  | cons _ known => exact known

theorem next (laid : Laid low visits buffer (⟨node, lowest, successor :: rest⟩ :: frames)) :
    ∃ start place more, visits = ⟨node, start, place⟩ :: more ∧ buffer[place]? = some successor ∧
      Laid low (⟨node, start, place + 1⟩ :: more) buffer (⟨node, lowest, rest⟩ :: frames) := by
  cases laid with
  | @cons visits _ buffer seen _ _ _ laid known =>
    refine ⟨_, _, visits, rfl, ?_, ?_⟩
    · rw [← List.length_append, List.getElem?_append_right (Nat.le_refl _), Nat.sub_self]
      rfl
    · have shifted : buffer ++ seen ++ successor :: rest = buffer ++ (seen ++ [successor]) ++ rest := by
        simp
      have longer : buffer.length + seen.length + 1 = buffer.length + (seen ++ [successor]).length := by
        simp [Nat.add_assoc]
      rw [shifted, longer]
      exact .cons laid known

theorem back (laid : Laid low visits buffer (⟨node, lowest, []⟩ :: frames)) :
    ∃ start place more, visits = ⟨node, start, place⟩ :: more ∧ place = buffer.length ∧
      Laid low more (buffer.take start) frames := by
  cases laid with
  | @cons visits _ buffer seen _ _ _ laid _ =>
    refine ⟨_, _, visits, rfl, by simp, ?_⟩
    rw [List.append_nil, List.take_left]
    exact laid

end Laid

structure Follows (graph : Digraph) (bound : Nat) (descent : Descent) (search : Search) : Prop where
  bounded : ∀ node ∈ graph.nodes, node < bound
  index_size : descent.index.size = bound
  low_size : descent.low.size = bound
  opened_size : descent.opened.size = bound
  unvisited_iff : ∀ node ∈ graph.nodes,
    node ∈ search.unvisited ↔ descent.index[node]? = some maxNumber
  opened_iff : ∀ node ∈ graph.nodes, node ∈ search.opened ↔ descent.opened[node]? = some true
  number_eq : ∀ node ∈ search.opened, search.number[node]? = descent.index[node]?
  discovered : descent.discovered = search.discovered
  stack : descent.stack = search.opened
  components : descent.components = search.components

structure Shadows (graph : Digraph) (bound : Nat) (descent : Descent) (search : Search) : Prop extends
    Follows graph bound descent search where
  laid : Laid descent.low descent.visits descent.successors.toList search.frames

theorem shadows_start (bounded : ∀ node ∈ graph.nodes, node < bound) :
    Shadows graph bound (start bound) (.start graph) where
  bounded := bounded
  index_size := Array.size_replicate
  low_size := Array.size_replicate
  opened_size := Array.size_replicate
  unvisited_iff node present := by simp [Descent.start, Search.start, present, bounded node present]
  opened_iff node present := by simp [Descent.start, Search.start, Array.getElem?_replicate]
  number_eq node member := nomatch member
  discovered := rfl
  stack := rfl
  components := rfl
  laid := .nil

theorem Follows.enter (follows : Follows graph bound descent search) (sound : search.Sound graph)
    (white : node ∈ search.unvisited) (fits : few → search.discovered < maxNumber)
    (laid : Laid descent.low descent.visits descent.successors.toList frames)
    (inside : ∀ frame ∈ frames, frame.node ∈ search.opened) :
    Safe few (Shadows graph bound · ({ search with frames }.enter graph node))
      (descent.enter graph node) := by
  have present := sound.unvisited_mem node white
  have below := follows.bounded node present
  -- An unvisited node has no frame, so that what is noted of the frames stays.
  have fresh : ∀ other ∈ search.opened, node ≠ other := fun other member same =>
    (sound.opened_mem other member).2 (same ▸ white)
  unfold Descent.enter
  refine (safe_writeAt _ (follows.index_size ▸ below)).bind ?_
  rintro _ rfl
  refine (safe_writeAt _ (follows.low_size ▸ below)).bind ?_
  rintro _ rfl
  refine (safe_nextNumber (follows.discovered ▸ fits)).bind ?_
  rintro _ ⟨rfl, small⟩
  refine (safe_writeAt _ (follows.opened_size ▸ below)).bind ?_
  rintro _ rfl
  constructor
  case laid =>
    have known : (descent.low.setIfInBounds node descent.discovered)[node]? =
        some search.discovered := by
      rw [Array.getElem?_setIfInBounds, if_pos rfl, if_pos (follows.low_size ▸ below), follows.discovered]
    have kept := laid.write descent.discovered fun frame member => (fresh frame.node (inside frame member)).symm
    rw [Array.toList_append]
    exact kept.push known
  constructor
  case bounded => exact follows.bounded
  case index_size => exact Array.size_setIfInBounds.trans follows.index_size
  case low_size => exact Array.size_setIfInBounds.trans follows.low_size
  case opened_size => exact Array.size_setIfInBounds.trans follows.opened_size
  case unvisited_iff =>
    intro other inside
    simp only [Search.enter]
    rw [NodeSet.mem_erase_iff, follows.unvisited_iff other inside, Array.getElem?_setIfInBounds]
    by_cases same : node = other
    · subst same
      simp [follows.index_size, below, Nat.ne_of_lt small]
    · simp [same, Ne.symm same]
  case opened_iff =>
    intro other inside
    simp only [Search.enter]
    rw [List.mem_cons, follows.opened_iff other inside, Array.getElem?_setIfInBounds]
    by_cases same : node = other
    · subst same
      simp [follows.opened_size, below]
    · simp [same, Ne.symm same]
  case number_eq =>
    intro other member
    simp only [Search.enter]
    rw [getElem?_insert_key, Array.getElem?_setIfInBounds]
    by_cases same : node = other
    · subst same
      simp [follows.index_size, below, follows.discovered]
    · rw [if_neg same, if_neg same]
      exact follows.number_eq other ((List.mem_cons.mp member).resolve_left (Ne.symm same))
  case discovered => exact congrArg (· + 1) follows.discovered
  case stack => exact congrArg (node :: ·) follows.stack
  case components => exact follows.components

theorem mem_of_stacked {unvisited : NodeSet} {numbers : Search.Numbers} {opened : List Node}
    (stacked : Search.Stacked graph unvisited numbers frames opened) :
    ∀ frame ∈ frames, frame.node ∈ opened := by
  induction stacked with
  | nil => exact fun _ member => nomatch member
  | @cons frame frames segment below _ _ _ ih =>
    refine List.forall_mem_cons.mpr ⟨by simp, fun other member => ?_⟩
    exact List.mem_append_right _ (List.mem_cons_of_mem _ (ih other member))

theorem apart_of_stacked {unvisited : NodeSet} {numbers : Search.Numbers} {opened : List Node}
    {top : Frame} (stacked : Search.Stacked graph unvisited numbers (top :: frames) opened)
    (nodup : opened.Nodup) : ∀ frame ∈ frames, frame.node ≠ top.node := by
  obtain ⟨segment, below, rfl, stacked, _⟩ := stacked.parts
  have outside := (List.nodup_cons.mp (List.nodup_append.mp nodup).2.1).1
  intro frame member same
  exact outside (same ▸ mem_of_stacked stacked frame member)

theorem Follows.lower (follows : Follows graph bound descent search) (number : Nat)
    (laid : Laid descent.low descent.visits descent.successors.toList (⟨node, lowest, rest⟩ :: frames))
    (apart : ∀ frame ∈ frames, frame.node ≠ node) (present : node ∈ graph.nodes) :
    Safe few (Shadows graph bound ·
        { search with frames := ⟨node, min lowest number, rest⟩ :: frames })
      (descent.lower node number) := by
  have below : node < descent.low.size := follows.low_size ▸ follows.bounded node present
  unfold Descent.lower
  refine (safe_readAt laid.known).bind ?_
  rintro _ rfl
  refine (safe_writeAt _ below).bind ?_
  rintro _ rfl
  exact
    { follows with
      low_size := Array.size_setIfInBounds.trans follows.low_size
      laid := laid.lower _ apart below }

theorem exists_place {α : Type} {cells : Array α} {place : Nat} (below : place < cells.size) :
    ∃ cell, cells[place]? = some cell :=
  ⟨_, Array.getElem?_eq_getElem below⟩

/-- A successor is entered, lowers what is noted of the node, or is passed over. -/
theorem Follows.look (follows : Follows graph bound descent search) (sound : search.Sound graph)
    (framed : search.frames = ⟨node, lowest, successor :: rest⟩ :: frames)
    (fits : successor ∈ search.unvisited → few → search.discovered < maxNumber)
    (laid : Laid descent.low descent.visits descent.successors.toList (⟨node, lowest, rest⟩ :: frames)) :
    Safe few (fun next => ∃ after, search.step graph = some after ∧ Shadows graph bound next after)
      (Descent.look graph node successor descent) := by
  have stacked := sound.stacked
  rw [framed] at stacked
  have apart := apart_of_stacked stacked sound.nodup_opened
  have inside := mem_of_stacked stacked
  obtain ⟨isOpen, others⟩ := List.forall_mem_cons.mp inside
  -- The search forgets the number of a node that is done. The array keeps it, so that an open node is told by its
  -- flag.
  have unnumbered (shut : successor ∉ search.opened) : search.number[successor]? = none := by
    cases numbered : search.number[successor]? with
    | none => rfl
    | some own => exact absurd (sound.opened_of_number successor own numbered) shut
  unfold Descent.look Search.step
  rw [framed]
  simp only
  by_cases present : successor ∈ graph.nodes
  · rw [if_pos present]
    have below := follows.bounded successor present
    obtain ⟨number, numbered⟩ := exists_place (follows.index_size ▸ below : successor < descent.index.size)
    obtain ⟨flag, flagged⟩ := exists_place (follows.opened_size ▸ below : successor < descent.opened.size)
    have white := follows.unvisited_iff successor present
    have opened := follows.opened_iff successor present
    rw [numbered, Option.some.injEq] at white
    rw [flagged, Option.some.injEq] at opened
    refine (safe_readAt numbered).bind ?_
    rintro number rfl
    by_cases fresh : number = maxNumber
    · rw [if_pos fresh, if_pos (white.mpr fresh)]
      refine (follows.enter sound (white.mpr fresh) (fits (white.mpr fresh)) laid ?_).imp
        fun next shadows => ⟨_, rfl, shadows⟩
      exact List.forall_mem_cons.mpr ⟨isOpen, others⟩
    · rw [if_neg fresh, if_neg (mt white.mp fresh)]
      refine (safe_readAt flagged).bind ?_
      rintro flag rfl
      by_cases here : flag = true
      · have known := follows.number_eq successor (opened.mpr here)
        rw [if_pos here, known, numbered]
        refine (safe_readAt numbered).bind ?_
        rintro number rfl
        exact (follows.lower number laid apart (sound.opened_mem node isOpen).1).imp
          fun next shadows => ⟨_, rfl, shadows⟩
      · rw [if_neg here, unnumbered (mt opened.mp here)]
        exact ⟨_, rfl, { follows with laid }⟩
  · have visited : successor ∉ search.unvisited := fun white => present (sound.unvisited_mem _ white)
    have shut : successor ∉ search.opened := fun member => present (sound.opened_mem _ member).1
    rw [if_neg present, if_neg visited, unnumbered shut]
    exact ⟨_, rfl, { follows with laid }⟩

theorem safe_unwind {stack : List Node} {opened : Array Bool} {members : Component}
    (parts : stack = segment ++ node :: below) (apart : node ∉ segment)
    (bounded : ∀ member ∈ segment ++ [node], member < opened.size) :
    Safe few (fun (rest, after, taken) => rest = below ∧ taken = members ++ (segment ++ [node]) ∧
        after.size = opened.size ∧ ∀ place : Node, after[place]? =
          if place ∈ segment ++ [node] then some false else opened[place]?)
      (unwind node stack opened members) := by
  induction segment generalizing stack opened members with
  | nil =>
    subst parts
    have inside : node < opened.size := bounded node (by simp)
    unfold unwind
    refine (safe_writeAt _ inside).bind ?_
    rintro _ rfl
    rw [if_pos rfl]
    refine ⟨rfl, rfl, Array.size_setIfInBounds, fun place => ?_⟩
    rw [Array.getElem?_setIfInBounds, if_pos inside]
    simp [eq_comm]
  | cons member segment ih =>
    subst parts
    obtain ⟨different, apart⟩ := not_or.mp (mt List.mem_cons.mpr apart)
    have inside : member < opened.size := bounded member (by simp)
    rw [List.cons_append]
    unfold unwind
    refine (safe_writeAt _ inside).bind ?_
    rintro _ rfl
    rw [if_neg (Ne.symm different)]
    refine (ih rfl apart fun other listed => ?_).imp ?_
    · rw [Array.size_setIfInBounds]
      exact bounded other (List.mem_cons_of_mem _ listed)
    · rintro ⟨rest, after, taken⟩ ⟨rfl, rfl, size, cells⟩
      refine ⟨rfl, by simp, size.trans Array.size_setIfInBounds, fun place => ?_⟩
      rw [cells, Array.getElem?_setIfInBounds, if_pos inside]
      by_cases later : place ∈ segment ++ [node]
      · simp [later]
      · by_cases here : member = place
        · simp [here]
        · simp [later, here, Ne.symm here]

/-- The component of a node is what lies on the stack down to it. -/
theorem Follows.emit (follows : Follows graph bound descent search) (sound : search.Sound graph)
    (parts : search.opened = segment ++ node :: below) :
    Safe few (fun next => Follows graph bound next (search.complete node) ∧ next.low = descent.low ∧
        next.visits = descent.visits ∧ next.successors = descent.successors) (descent.emit node) := by
  -- The stack down to the node is its segment and the node itself; what is below stays open.
  have joined : search.opened = (segment ++ [node]) ++ below := by simp [parts]
  obtain ⟨membersNodup, _, others⟩ := List.nodup_append.mp (joined ▸ sound.nodup_opened)
  have apart : node ∉ segment := fun member =>
    (List.nodup_append.mp membersNodup).2.2 node member node (by simp) rfl
  have inside : ∀ member ∈ segment ++ [node], member < descent.opened.size := by
    intro member listed
    have opened : member ∈ search.opened := joined ▸ List.mem_append_left _ listed
    exact follows.opened_size ▸ follows.bounded member (sound.opened_mem member opened).1
  have outside {other : Node} (member : other ∈ below) : other ∉ segment ++ [node] :=
    fun taken => others other taken other member rfl
  rw [Search.complete_eq parts apart]
  unfold Descent.emit
  refine (safe_unwind (follows.stack.trans parts) apart inside).bind ?_
  rintro ⟨stack, opened, members⟩ ⟨rfl, rfl, size, cells⟩
  refine ⟨{ follows with opened_size := ?_, opened_iff := ?_, number_eq := ?_, stack := rfl, components := ?_ },
    rfl, rfl, rfl⟩
  · exact size.trans follows.opened_size
  · intro other present
    have before := follows.opened_iff other present
    rw [joined, List.mem_append] at before
    rw [cells]
    by_cases taken : other ∈ segment ++ [node]
    · rw [if_pos taken]
      exact iff_of_false (fun member => outside member taken) (by simp)
    · rw [if_neg taken, ← before]
      simp [taken]
  · intro other member
    rw [Search.number_foldl_erase, if_neg (outside member)]
    exact follows.number_eq other (joined ▸ List.mem_append_right _ member)
  · rw [List.nil_append, follows.components]

theorem Follows.pass (follows : Follows graph bound descent search)
    (known : descent.low[node]? = some lowest)
    (laid : Laid descent.low descent.visits descent.successors.toList search.frames)
    (apart : ∀ parent more, search.frames = parent :: more →
      (∀ frame ∈ more, frame.node ≠ parent.node) ∧ parent.node ∈ graph.nodes) :
    Safe few (Shadows graph bound · (search.lower lowest)) (descent.pass node) := by
  unfold Descent.pass Search.lower
  cases framed : search.frames with
  | nil =>
    rw [framed] at laid
    rw [laid.visits_nil, List.modifyHead_nil]
    exact { follows with laid }
  | cons parent more =>
    obtain ⟨others, present⟩ := apart parent more framed
    rw [framed] at laid
    obtain ⟨start, place, visits, visiting⟩ := laid.visits_cons
    rw [visiting]
    refine (safe_readAt known).bind ?_
    rintro _ rfl
    exact follows.lower _ laid others present

theorem Follows.leave (follows : Follows graph bound descent search) (sound : search.Sound graph)
    (framed : search.frames = ⟨node, lowest, []⟩ :: frames) (known : descent.low[node]? = some lowest)
    (laid : Laid descent.low descent.visits descent.successors.toList frames) :
    Safe few (fun next => ∃ after, search.step graph = some after ∧ Shadows graph bound next after)
      (descent.leave node) := by
  have stacked := sound.stacked
  rw [framed] at stacked
  obtain ⟨segment, below, parts, under, _⟩ := stacked.parts
  have nodup := sound.nodup_opened
  have present : node ∈ search.opened := by simp [parts]
  have belowNodup : below.Nodup := by
    rw [parts] at nodup
    exact (List.nodup_cons.mp (List.nodup_append.mp nodup).2.1).2
  -- The number of the node goes to the frame below, if there is one, which is of another node.
  have apart : ∀ parent more, frames = parent :: more →
      (∀ frame ∈ more, frame.node ≠ parent.node) ∧ parent.node ∈ graph.nodes := by
    rintro parent more rfl
    refine ⟨apart_of_stacked under belowNodup, (sound.opened_mem parent.node ?_).1⟩
    rw [parts]
    exact List.mem_append_right _ (List.mem_cons_of_mem _ (mem_of_stacked under parent List.mem_cons_self))
  obtain ⟨own, numbered, _⟩ := sound.numbered node present
  have indexed : descent.index[node]? = some own := (follows.number_eq node present).symm.trans numbered
  unfold Descent.leave Search.step
  rw [framed]
  simp only [numbered, Option.some.injEq]
  refine (safe_readAt known).bind ?_
  rintro lowest rfl
  refine (safe_readAt indexed).bind ?_
  rintro own rfl
  by_cases least : lowest = own
  · rw [if_pos least, if_pos least.symm]
    refine (follows.emit sound parts).bind ?_
    rintro next ⟨completed, low, visits, successors⟩
    rw [← low] at known
    rw [← low, ← visits, ← successors] at laid
    have completed : Follows graph bound next ({ search with frames }.complete node) :=
      { completed with }
    exact (completed.pass known laid apart).imp fun next shadows => ⟨_, rfl, shadows⟩
  · rw [if_neg least, if_neg (Ne.symm least)]
    have kept : Follows graph bound descent { search with frames } := { follows with }
    exact (kept.pass known laid apart).imp fun next shadows => ⟨_, rfl, shadows⟩

/-- Each step on arrays is a step of the search. -/
theorem Shadows.step (shadows : Shadows graph bound descent search) (sound : search.Sound graph)
    (fits : few → ∀ node ∈ search.unvisited, search.discovered < maxNumber) :
    Safe few (Option.Rel (Shadows graph bound) · (search.step graph)) (descent.step graph) := by
  have laid := shadows.laid
  unfold Descent.step
  cases framed : search.frames with
  | nil =>
    rw [framed] at laid
    rw [laid.visits_nil, Search.step, framed]
    exact .none
  | cons frame frames =>
    obtain ⟨node, lowest, rest⟩ := frame
    rw [framed] at laid
    cases rest with
    | cons successor rest =>
      -- The next successor of the frame is at the place that the visit has come to.
      obtain ⟨start, place, visits, visiting, found, advanced⟩ := laid.next
      have found : descent.successors[place]? = some successor := by rwa [← Array.getElem?_toList]
      have inside : place < descent.successors.size := (Array.getElem?_eq_some_iff.mp found).1
      simp only [visiting]
      rw [if_pos inside]
      refine (safe_readAt found).bind ?_
      rintro _ rfl
      have follows : Follows graph bound { descent with visits := ⟨node, start, place + 1⟩ :: visits }
          search := { shadows.toFollows with }
      refine (follows.look sound framed (fun white true_few => fits true_few _ white) advanced).map ?_
      rintro next ⟨after, stepped, shadows⟩
      rw [stepped]
      exact .some shadows
    | nil =>
      -- The visit has come to the end of the buffer, which is cut back to where its successors start.
      obtain ⟨start, place, visits, visiting, rfl, below⟩ := laid.back
      simp only [visiting]
      rw [if_neg (by simp)]
      have follows : Follows graph bound
          { descent with visits, successors := descent.successors.shrink start } search :=
        { shadows.toFollows with }
      have below : Laid descent.low visits (descent.successors.shrink start).toList frames := by
        rwa [Array.toList_shrink]
      refine (follows.leave sound framed laid.known below).map ?_
      rintro next ⟨after, stepped, shadows⟩
      rw [stepped]
      exact .some shadows

theorem number_left {moves : Nat} (passes : Search.Passes graph moves search)
    (few : graph.nodes.size < maxNumber) : ∀ node ∈ search.unvisited, search.discovered < maxNumber := by
  intro node white
  have counted := passes.discovered_add
  have left : 0 < search.unvisited.size := by
    rw [← NodeSet.size_erase_add_one white]
    exact Nat.succ_pos _
  omega

theorem Shadows.run {moves : Nat} (shadows : Shadows graph bound descent search) (sound : search.Sound graph)
    (passes : Search.Passes graph moves search) :
    Safe (graph.nodes.size < maxNumber) (Shadows graph bound · (search.run graph)) (descent.run graph) := by
  have stepped := shadows.step sound (number_left passes)
  fun_induction Descent.run graph descent generalizing search moves with
  | case1 descent trap failed =>
    rw [failed] at stepped
    exact stepped.of_error
  | case2 descent ended =>
    rw [ended] at stepped
    cases stuck : search.step graph with
    | none =>
      rwa [Search.run_of_stuck stuck]
    | some next =>
      rw [stuck] at stepped
      cases stepped
  | case3 descent next moved ih =>
    rw [moved] at stepped
    cases going : search.step graph with
    | none =>
      rw [going] at stepped
      cases stepped
    | some after =>
      rw [going] at stepped
      cases stepped with
      | some shadows =>
        have sound := sound.move (Search.move_of_step going)
        have passes := passes.step going
        rw [Search.run_of_step going]
        exact ih shadows sound passes (shadows.step sound (number_left passes))

theorem Shadows.visit {moves : Nat} {root : Node} (shadows : Shadows graph bound descent search)
    (sound : search.Sound graph) (passes : Search.Passes graph moves search) (idle : search.frames = []) :
    Safe (graph.nodes.size < maxNumber) (Shadows graph bound · (search.visit graph root))
      (descent.visit graph root) := by
  unfold Descent.visit Search.visit
  by_cases present : root ∈ graph.nodes
  · rw [if_pos present]
    have below := shadows.bounded root present
    obtain ⟨number, numbered⟩ := exists_place (shadows.index_size ▸ below : root < descent.index.size)
    have white := shadows.unvisited_iff root present
    rw [numbered, Option.some.injEq] at white
    refine (safe_readAt numbered).bind ?_
    rintro number rfl
    by_cases fresh : number = maxNumber
    · have unvisited := white.mpr fresh
      rw [if_pos fresh, if_pos unvisited]
      have laid := shadows.laid
      refine (shadows.enter sound unvisited (fun few => number_left passes few root unvisited) laid
        (by simp [idle])).bind fun next shadows => ?_
      exact shadows.run (sound.enter unvisited (sound.stacked_insert unvisited) (by simp [idle]))
        (passes.root idle unvisited)
    · rw [if_neg fresh, if_neg (mt white.mp fresh)]
      exact shadows
  · rw [if_neg present, if_neg fun white => present (sound.unvisited_mem _ white)]
    exact shadows

theorem Shadows.visitAll {moves : Nat} (roots : List Node) (shadows : Shadows graph bound descent search)
    (sound : search.Sound graph) (passes : Search.Passes graph moves search) (idle : search.frames = []) :
    Safe (graph.nodes.size < maxNumber)
      (Shadows graph bound · ((roots.filter (· ∈ graph.nodes)).foldl (Search.visit graph) search))
      (roots.foldlM (Descent.visit graph) descent) := by
  induction roots generalizing descent search moves with
  | nil => exact shadows
  | cons root roots ih =>
    rw [List.foldlM_cons]
    refine (shadows.visit sound passes idle).bind fun next shadows => ?_
    by_cases present : root ∈ graph.nodes
    · obtain ⟨later, passes⟩ := passes.visit root idle
      obtain ⟨sound, idle, _⟩ := sound.visit root idle
      rw [List.filter_cons_of_pos (by simpa using present), List.foldl_cons]
      exact ih shadows sound passes idle
    · have visited : root ∉ search.unvisited := fun white => present (sound.unvisited_mem _ white)
      rw [Search.visit, if_neg visited] at shadows
      rw [List.filter_cons_of_neg (by simpa using present)]
      exact ih shadows sound passes idle

end Descent

/-- The search on arrays gives the components of the graph, in the same order. -/
theorem Digraph.safe_descend {graph : Digraph} {bound : Nat} (bounded : ∀ node ∈ graph.nodes, node < bound) :
    Safe (graph.nodes.size < maxNumber) (· = graph.components) (graph.descend bound) := by
  have listed : graph.nodes.toList = (List.range bound).filter (· ∈ graph.nodes) :=
    NodeSet.toList_eq_filter fun node => by simpa using bounded node
  have searched := (Descent.shadows_start bounded).visitAll (List.range bound) (Search.sound_start graph)
    .fresh rfl
  refine searched.bind fun last shadows => ?_
  rw [Digraph.components, listed, ← shadows.components]
  exact rfl

end Reclaim
