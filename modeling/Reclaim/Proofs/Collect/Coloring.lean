import Reclaim.Proofs.Arena.Collector

/-! Marking in three colors, as a counter does it that keeps a color with each entry and one queue for all its
passes. Before each turn of the loop the queue lists the gray slots, and nothing black contains anything white.
What is still white at the end is what marking does not reach. -/

set_option autoImplicit false

namespace Reclaim

/-- The colors of the entries, and the slots that wait to be scanned, the latest first. -/
structure Palette where
  colors : SlotMap Color := ∅
  queue : List Slot := []

namespace Palette

/-- What a pass begins with. The queue is the one that the pass before has left. -/
def whiten (palette : Palette) (ledger : Ledger) : Palette :=
  { palette with colors := ledger.entries.map fun _ _ => .white }

def shade (palette : Palette) (slot : Slot) : Palette :=
  if palette.colors[slot]? = some .white then
    { colors := palette.colors.insert slot .gray, queue := slot :: palette.queue }
  else
    palette

def shadeAll (palette : Palette) (slots : List Slot) : Palette := slots.foldl shade palette

/-- One turn of the loop. A slot without an entry only leaves the queue. -/
def scan (ledger : Ledger) (heap : Heap) (palette : Palette) : Option Palette :=
  match palette.queue with
  | [] => none
  | slot :: queue =>
    if palette.colors.contains slot then
      some (shadeAll { colors := palette.colors.insert slot .black, queue } (ledger.childSlots heap slot))
    else
      some { palette with queue }

def having (palette : Palette) (color : Color) : NodeSet :=
  .ofList (palette.colors.filter fun _ present => present = color).keys

/-- The palette without what tells a gray slot from one that waits in the queue. -/
def marking (palette : Palette) : Marking where
  white := palette.having .white
  gray := palette.queue
  black := palette.having .black

variable {ledger : Ledger} {heap : Heap} {palette next begun : Palette} {slot other owner child : Slot}
  {slots entered waiting : List Slot} {color : Color} {turns : Nat}

theorem mem_having : slot ∈ palette.having color ↔ palette.colors[slot]? = some color := by
  rw [having, Std.ExtTreeSet.mem_ofList, List.contains_iff_mem, Std.ExtTreeMap.mem_keys,
    Std.ExtTreeMap.mem_iff_isSome_getElem?, Std.ExtTreeMap.getElem?_filter']
  cases palette.colors[slot]? <;> simp

theorem mem_white : slot ∈ palette.marking.white ↔ palette.colors[slot]? = some .white := mem_having

theorem mem_black : slot ∈ palette.marking.black ↔ palette.colors[slot]? = some .black := mem_having

theorem having_insert_of_ne {painted : Color} (different : painted ≠ color) :
    having ⟨palette.colors.insert slot painted, waiting⟩ color = (palette.having color).erase slot := by
  refine Std.ExtTreeSet.ext_mem fun other => ?_
  rw [NodeSet.mem_erase_iff, mem_having, mem_having, getElem?_insert_key]
  by_cases here : slot = other
  · simp [here, different]
  · simp [here, Ne.symm here]

theorem having_insert_self :
    having ⟨palette.colors.insert slot color, waiting⟩ color = (palette.having color).insert slot := by
  refine Std.ExtTreeSet.ext_mem fun other => ?_
  rw [NodeSet.mem_insert_iff, mem_having, mem_having, getElem?_insert_key]
  by_cases here : slot = other
  · simp [here]
  · simp [here, Ne.symm here]

theorem erase_having (other : palette.colors[slot]? ≠ some color) :
    (palette.having color).erase slot = palette.having color := by
  refine Std.ExtTreeSet.ext_mem fun place => ?_
  rw [NodeSet.mem_erase_iff, mem_having]
  exact and_iff_right_of_imp fun present here => other (here ▸ present)

theorem marking_shade : (palette.shade slot).marking = palette.marking.shade slot := by
  unfold shade Marking.shade
  by_cases white : palette.colors[slot]? = some .white
  · have unblack : palette.colors[slot]? ≠ some .black := by simp [white]
    have grayed : Color.gray ≠ .white ∧ Color.gray ≠ .black := ⟨nofun, nofun⟩
    rw [if_pos white, if_pos (mem_white.mpr white), marking, having_insert_of_ne grayed.1,
      having_insert_of_ne grayed.2, erase_having unblack]
    rfl
  · rw [if_neg white, if_neg (mt mem_white.mp white)]

theorem marking_shadeAll : (palette.shadeAll slots).marking = palette.marking.shadeAll slots := by
  induction slots generalizing palette with
  | nil => rfl
  | cons slot rest ih =>
    show ((palette.shade slot).shadeAll rest).marking = (palette.marking.shade slot).shadeAll rest
    rw [ih, marking_shade]

def remaining (palette : Palette) : Nat := (palette.having .white).size + palette.queue.length

theorem remaining_shadeAll : (palette.shadeAll slots).remaining = palette.remaining := by
  show (palette.shadeAll slots).marking.remaining = palette.marking.remaining
  rw [marking_shadeAll, Marking.remaining_shadeAll]

theorem remaining_scan (scanned : palette.scan ledger heap = some next) : next.remaining < palette.remaining := by
  unfold scan at scanned
  split at scanned
  next => cases scanned
  next slot queue taken =>
    split at scanned
    next =>
      cases scanned
      -- The slot may have been white, if the queue has come from elsewhere.
      have fewer : ((palette.having .white).erase slot).size ≤ (palette.having .white).size :=
        Std.ExtTreeSet.size_erase_le
      have taken : palette.queue.length = queue.length + 1 := by rw [taken, List.length_cons]
      have blackened : Color.black ≠ .white := nofun
      rw [remaining_shadeAll]
      show (having _ .white).size + queue.length < (palette.having .white).size + palette.queue.length
      rw [having_insert_of_ne blackened]
      omega
    next =>
      cases scanned
      show (palette.having .white).size + queue.length < _
      rw [remaining, taken, List.length_cons]
      omega

def run (ledger : Ledger) (heap : Heap) (palette : Palette) : Palette :=
  match _scanned : palette.scan ledger heap with
  | none => palette
  | some next => next.run ledger heap
termination_by palette.remaining
decreasing_by exact remaining_scan _scanned

def mark (palette : Palette) (ledger : Ledger) (heap : Heap) : Palette :=
  ((palette.whiten ledger).shadeAll ledger.roots).run ledger heap

theorem queue_of_stuck (stuck : palette.scan ledger heap = none) : palette.queue = [] := by
  unfold scan at stuck
  split at stuck
  next empty => exact empty
  next => split at stuck <;> cases stuck

theorem scan_run (ledger : Ledger) (heap : Heap) (palette : Palette) :
    (palette.run ledger heap).scan ledger heap = none := by
  fun_induction run ledger heap palette with
  | case1 palette stuck => exact stuck
  | case2 palette next scanned ih => exact ih

/-- What has entered the queue is gray while it waits there, and black once it has left. Nothing is there twice,
and nothing has entered twice. -/
structure Queued (entered : List Slot) (palette : Palette) : Prop where
  gray_iff : ∀ slot, slot ∈ palette.queue ↔ palette.colors[slot]? = some .gray
  nodup : palette.queue.Nodup
  entered_iff : ∀ slot, slot ∈ entered ↔
    palette.colors[slot]? = some .gray ∨ palette.colors[slot]? = some .black
  once : entered.Nodup

theorem Queued.shade (queued : palette.Queued entered) (white : palette.colors[slot]? = some .white) :
    (palette.shade slot).Queued (slot :: entered) := by
  have waits : slot ∉ palette.queue := by simp [queued.gray_iff, white]
  have comes : slot ∉ entered := by simp [queued.entered_iff, white]
  unfold Palette.shade
  rw [if_pos white]
  refine ⟨fun other => ?_, List.nodup_cons.mpr ⟨waits, queued.nodup⟩, fun other => ?_,
    List.nodup_cons.mpr ⟨comes, queued.once⟩⟩
  · rw [List.mem_cons, queued.gray_iff, getElem?_insert_key]
    by_cases here : slot = other <;> simp [here, eq_comm]
  · rw [List.mem_cons, queued.entered_iff, getElem?_insert_key]
    by_cases here : slot = other <;> simp [here, eq_comm]

/-- What enters the queue while slots are shaded stands before what waited there. -/
theorem Queued.shadeAll (queued : palette.Queued entered) (slots : List Slot) :
    ∃ fresh, (palette.shadeAll slots).queue = fresh ++ palette.queue ∧
      (palette.shadeAll slots).Queued (fresh ++ entered) := by
  induction slots generalizing palette entered with
  | nil => exact ⟨[], rfl, queued⟩
  | cons slot rest ih =>
    show ∃ fresh, ((palette.shade slot).shadeAll rest).queue = fresh ++ palette.queue ∧
      ((palette.shade slot).shadeAll rest).Queued (fresh ++ entered)
    by_cases white : palette.colors[slot]? = some .white
    · obtain ⟨fresh, queue, kept⟩ := ih (queued.shade white)
      refine ⟨fresh ++ [slot], ?_, ?_⟩
      · rw [queue, Palette.shade, if_pos white, List.append_assoc]
        rfl
      · rwa [List.append_assoc]
    · have same : palette.shade slot = palette := if_neg white
      rw [same]
      exact ih queued

theorem Queued.blacken (queued : palette.Queued entered) (taken : palette.queue = slot :: waiting) :
    Queued entered ⟨palette.colors.insert slot .black, waiting⟩ := by
  have gray : palette.colors[slot]? = some .gray := (queued.gray_iff slot).mp (by simp [taken])
  have listed := queued.gray_iff
  have apart := queued.nodup
  rw [taken] at listed apart
  obtain ⟨gone, nodup⟩ := List.nodup_cons.mp apart
  refine ⟨fun other => ?_, nodup, fun other => ?_, queued.once⟩
  · rw [getElem?_insert_key]
    split
    next here => simp [← here, gone]
    next apart => rw [← listed other, List.mem_cons, or_iff_right (Ne.symm apart)]
  · rw [queued.entered_iff, getElem?_insert_key]
    split
    next here => simp [← here, gray]
    next => exact Iff.rfl

theorem Queued.scan_eq (queued : palette.Queued entered) (taken : palette.queue = slot :: waiting) :
    palette.scan ledger heap =
      some (Palette.shadeAll ⟨palette.colors.insert slot .black, waiting⟩ (ledger.childSlots heap slot)) := by
  have gray : palette.colors[slot]? = some .gray := (queued.gray_iff slot).mp (by simp [taken])
  unfold scan
  simp only [taken]
  rw [Std.ExtTreeMap.contains_eq_isSome_getElem?, gray]
  rfl

theorem Queued.scan (queued : palette.Queued entered) (scanned : palette.scan ledger heap = some next) :
    ∃ slot waiting fresh, palette.queue = slot :: waiting ∧ next.queue = fresh ++ waiting ∧
      next.Queued (fresh ++ entered) ∧ palette.marking.step (ledger.contentGraph heap) = some next.marking := by
  cases taken : palette.queue with
  | nil =>
    unfold Palette.scan at scanned
    rw [taken] at scanned
    cases scanned
  | cons slot waiting =>
    have gray : palette.colors[slot]? = some .gray := (queued.gray_iff slot).mp (by simp [taken])
    have unwhite : palette.colors[slot]? ≠ some .white := by simp [gray]
    have blackened : Color.black ≠ .white := nofun
    have marking : marking ⟨palette.colors.insert slot .black, waiting⟩ =
        { palette.marking with gray := waiting, black := palette.marking.black.insert slot } := by
      rw [Palette.marking, having_insert_of_ne blackened, erase_having unwhite, having_insert_self]
      rfl
    rw [queued.scan_eq taken] at scanned
    cases scanned
    -- The slot is black before its children are looked at: one that contains itself does not enter again.
    obtain ⟨fresh, queue, kept⟩ := (queued.blacken taken).shadeAll (ledger.childSlots heap slot)
    refine ⟨slot, waiting, fresh, rfl, queue, kept, ?_⟩
    have listed : palette.marking.gray = slot :: waiting := taken
    rw [marking_shadeAll, marking, Marking.step, listed]
    rfl

theorem Queued.marking_scan (queued : palette.Queued entered) :
    (palette.scan ledger heap).map marking = palette.marking.step (ledger.contentGraph heap) := by
  cases scanned : palette.scan ledger heap with
  | none =>
    have empty : palette.marking.gray = [] := queue_of_stuck scanned
    rw [Marking.step, empty]
    rfl
  | some next =>
    obtain ⟨_, _, _, _, _, _, follows⟩ := queued.scan scanned
    exact follows.symm

theorem Queued.marking_run (queued : palette.Queued entered) :
    (palette.run ledger heap).marking = palette.marking.run (ledger.contentGraph heap) := by
  fun_induction run ledger heap palette generalizing entered with
  | case1 palette stuck =>
    have stops : none = palette.marking.step (ledger.contentGraph heap) := by
      rw [← queued.marking_scan, stuck]
      rfl
    unfold Marking.run
    split
    next => rfl
    next steps => cases stops.trans steps
  | case2 palette next scanned ih =>
    obtain ⟨_, _, fresh, _, _, kept, follows⟩ := queued.scan scanned
    rw [ih kept]
    conv_rhs => unfold Marking.run
    split
    next stuck => cases follows.symm.trans stuck
    next after steps => cases follows.symm.trans steps; rfl

/-- What holds whenever the loop is about to take a slot off the queue. -/
structure Tricolor (ledger : Ledger) (heap : Heap) (entered : List Slot) (palette : Palette) : Prop extends
    palette.Queued entered where
  /-- Each entry has a color. -/
  colored : ∀ slot, slot ∈ palette.colors ↔ slot ∈ ledger.occupied
  /-- Nothing black contains anything white. -/
  looked : ∀ owner child, palette.colors[owner]? = some .black → child ∈ ledger.childSlots heap owner →
    palette.colors[child]? ≠ some .white
  /-- Nothing that is held is white. -/
  rooted : ∀ slot ∈ ledger.roots, palette.colors[slot]? ≠ some .white

/-- The loop is about to take a slot off the queue. Since the pass began it has made some turns, and some slots
have entered the queue, the latest first. -/
inductive AtHead (ledger : Ledger) (heap : Heap) (begun : Palette) : Nat → List Slot → Palette → Prop where
  | first {entered : List Slot} (shaded : (begun.shadeAll ledger.roots).queue = entered ++ begun.queue) :
      AtHead ledger heap begun 0 entered (begun.shadeAll ledger.roots)
  | next {turns : Nat} {entered fresh waiting : List Slot} {slot : Slot} {palette next : Palette}
      (head : AtHead ledger heap begun turns entered palette) (taken : palette.queue = slot :: waiting)
      (scanned : palette.scan ledger heap = some next) (shaded : next.queue = fresh ++ waiting) :
      AtHead ledger heap begun (turns + 1) (fresh ++ entered) next

theorem colored_shade (slot : Slot) : slot ∈ (palette.shade other).colors ↔ slot ∈ palette.colors := by
  unfold shade
  split
  next white =>
    rw [Std.ExtTreeMap.mem_insert, Std.compare_eq_iff_eq, or_iff_right_iff_imp]
    rintro rfl
    exact Std.ExtTreeMap.mem_iff_isSome_getElem?.mpr (by rw [white]; rfl)
  next => exact Iff.rfl

theorem colored_shadeAll (slot : Slot) : slot ∈ (palette.shadeAll slots).colors ↔ slot ∈ palette.colors := by
  induction slots generalizing palette with
  | nil => exact Iff.rfl
  | cons other rest ih => exact ih.trans (colored_shade slot)

theorem colored_scan (scanned : palette.scan ledger heap = some next) (slot : Slot) :
    slot ∈ next.colors ↔ slot ∈ palette.colors := by
  unfold scan at scanned
  split at scanned
  next => cases scanned
  next first _ _ =>
    split at scanned
    next present =>
      cases scanned
      rw [colored_shadeAll, Std.ExtTreeMap.mem_insert, Std.compare_eq_iff_eq, or_iff_right_iff_imp]
      rintro rfl
      exact Std.ExtTreeMap.contains_iff_mem.mp present
    next =>
      cases scanned
      exact Iff.rfl

theorem looked_iff : palette.marking.Looked (ledger.contentGraph heap) ↔ ∀ owner child,
    palette.colors[owner]? = some .black → child ∈ ledger.childSlots heap owner →
      palette.colors[child]? ≠ some .white := by
  constructor
  · intro looked owner child black contained white
    exact looked owner (mem_black.mpr black) child contained (mem_white.mpr white)
  · intro looked owner black child contained white
    exact looked owner child (mem_black.mp black) contained (mem_white.mp white)

theorem getElem?_whiten (slot : Slot) :
    (palette.whiten ledger).colors[slot]? = ledger.entries[slot]?.map fun _ => .white :=
  Std.ExtTreeMap.getElem?_map

theorem queued_whiten (ledger : Ledger) (empty : palette.queue = []) : (palette.whiten ledger).Queued [] := by
  have unfound : ∀ (slot : Slot) (color : Color), color ≠ .white →
      (palette.whiten ledger).colors[slot]? ≠ some color := by
    intro slot color colored
    rw [getElem?_whiten]
    cases ledger.entries[slot]? <;> simp [Ne.symm colored]
  have queue : (palette.whiten ledger).queue = [] := empty
  refine ⟨fun slot => ?_, by rw [queue]; exact List.nodup_nil, fun slot => ?_, List.nodup_nil⟩
  · simp [queue, unfound slot .gray]
  · simp [unfound slot .gray, unfound slot .black]

theorem marking_whiten (ledger : Ledger) (heap : Heap) (empty : palette.queue = []) :
    (palette.whiten ledger).marking = .start (ledger.contentGraph heap) := by
  have whites : (palette.whiten ledger).having .white = ledger.occupied := by
    refine Std.ExtTreeSet.ext_mem fun slot => ?_
    rw [mem_having, getElem?_whiten, Ledger.mem_occupied]
    cases ledger.entries[slot]? <;> simp
  have blacks : (palette.whiten ledger).having .black = ∅ := by
    refine Std.ExtTreeSet.ext_mem fun slot => ?_
    rw [mem_having, getElem?_whiten]
    cases ledger.entries[slot]? <;> simp
  have queue : (palette.whiten ledger).queue = [] := empty
  rw [marking, whites, blacks, queue]
  rfl

theorem tricolor_first (ledger : Ledger) (heap : Heap) (empty : palette.queue = []) : ∃ entered,
    ((palette.whiten ledger).shadeAll ledger.roots).queue = entered ++ (palette.whiten ledger).queue ∧
      ((palette.whiten ledger).shadeAll ledger.roots).Tricolor ledger heap entered := by
  obtain ⟨entered, queue, queued⟩ := (queued_whiten ledger empty).shadeAll ledger.roots
  rw [List.append_nil] at queued
  refine ⟨entered, queue, queued, fun slot => ?_, ?_, fun slot rooted white => ?_⟩
  · rw [colored_shadeAll, Std.ExtTreeMap.mem_iff_isSome_getElem?, getElem?_whiten, Option.isSome_map,
      Ledger.mem_occupied]
  · refine looked_iff.mp fun black member => ?_
    rw [marking_shadeAll, Marking.black_shadeAll, marking_whiten ledger heap empty] at member
    simp [Marking.start] at member
  · have white := mem_white.mpr white
    rw [marking_shadeAll] at white
    exact (Marking.mem_white_shadeAll.mp white).2 rooted

theorem Tricolor.scan (tricolor : palette.Tricolor ledger heap entered) (taken : palette.queue = slot :: waiting)
    (scanned : palette.scan ledger heap = some next) :
    ∃ fresh, next.queue = fresh ++ waiting ∧ next.Tricolor ledger heap (fresh ++ entered) := by
  obtain ⟨_, _, fresh, took, queue, queued, follows⟩ := tricolor.toQueued.scan scanned
  cases taken.symm.trans took
  refine ⟨fresh, queue, queued, fun slot => ?_, ?_, fun slot rooted white => ?_⟩
  · rw [colored_scan scanned, tricolor.colored]
  -- What turns black has all its children shaded within the turn, so this holds again at the next head only.
  · exact looked_iff.mp ((looked_iff.mpr tricolor.looked).step follows)
  · exact tricolor.rooted slot rooted (mem_white.mp (Marking.white_of_step follows (mem_white.mpr white)))

theorem AtHead.tricolor (empty : palette.queue = [])
    (head : AtHead ledger heap (palette.whiten ledger) turns entered next) :
    next.Tricolor ledger heap entered ∧ turns + next.queue.length = entered.length := by
  induction head with
  | first shaded =>
    obtain ⟨listed, queue, tricolor⟩ := tricolor_first ledger heap empty
    obtain rfl := List.append_cancel_right (queue.symm.trans shaded)
    have queue : (palette.whiten ledger).queue = [] := empty
    rw [queue, List.append_nil] at shaded
    exact ⟨tricolor, by rw [shaded, Nat.zero_add]⟩
  | next head taken scanned shaded ih =>
    obtain ⟨tricolor, left⟩ := ih
    obtain ⟨fresh, queue, kept⟩ := tricolor.scan taken scanned
    -- The queues before and after a turn say what has entered in it.
    obtain rfl := List.append_cancel_right (queue.symm.trans shaded)
    refine ⟨kept, ?_⟩
    rw [taken, List.length_cons] at left
    rw [queue, List.length_append, List.length_append]
    omega

theorem Tricolor.length_le (tricolor : palette.Tricolor ledger heap entered) :
    entered.length ≤ ledger.trackedCount := by
  have occupied : ∀ slot ∈ entered, slot ∈ ledger.occupied.toList := by
    intro slot member
    rw [Std.ExtTreeSet.mem_toList, ← tricolor.colored, Std.ExtTreeMap.mem_iff_isSome_getElem?]
    rcases (tricolor.entered_iff slot).mp member with gray | black
    · rw [gray]; rfl
    · rw [black]; rfl
  -- Nothing has entered twice, and all that has entered is tracked.
  calc entered.length
      ≤ ledger.occupied.toList.length := (List.subperm_of_subset tricolor.once occupied).length_le
    _ = ledger.trackedCount := by rw [Std.ExtTreeSet.length_toList, ledger.size_occupied]

theorem AtHead.run (head : AtHead ledger heap begun turns entered palette)
    (tricolor : palette.Tricolor ledger heap entered) :
    ∃ turns entered, AtHead ledger heap begun turns entered (palette.run ledger heap) := by
  fun_induction Palette.run ledger heap palette generalizing turns entered with
  | case1 palette stuck => exact ⟨turns, entered, head⟩
  | case2 palette next scanned ih =>
    obtain ⟨slot, waiting, _, taken, _⟩ := tricolor.toQueued.scan scanned
    obtain ⟨fresh, queue, kept⟩ := tricolor.scan taken scanned
    exact ih (head.next taken scanned queue) kept

theorem Tricolor.ended (tricolor : palette.Tricolor ledger heap entered) (empty : palette.queue = []) :
    (∀ slot : Slot, palette.colors[slot]? ≠ some .gray) ∧
      ∀ (slot : Slot) (entry : Entry), ledger.entries[slot]? = some entry → 0 < entry.held →
        palette.colors[slot]? = some .black := by
  have ungray : ∀ slot : Slot, palette.colors[slot]? ≠ some .gray := by
    intro slot gray
    have waits := (tricolor.gray_iff slot).mpr gray
    rw [empty] at waits
    cases waits
  refine ⟨ungray, fun slot entry found held => ?_⟩
  have colored := (tricolor.colored slot).mpr (Ledger.mem_occupied.mpr (by rw [found]; rfl))
  obtain ⟨color, present⟩ := Option.isSome_iff_exists.mp (Std.ExtTreeMap.mem_iff_isSome_getElem?.mp colored)
  cases color with
  | white => exact absurd present (tricolor.rooted slot (Ledger.mem_roots.mpr ⟨entry, found, held⟩))
  | gray => exact absurd present (ungray slot)
  | black => exact present

structure Marks (ledger : Ledger) (heap : Heap) (palette : Palette) : Prop where
  begins : (palette.whiten ledger).marking = .start (ledger.contentGraph heap)
  /-- Each turn is a step of the marking that decides what a settle removes. -/
  follows : ∀ turns entered next, AtHead ledger heap (palette.whiten ledger) turns entered next →
    (next.scan ledger heap).map marking = next.marking.step (ledger.contentGraph heap)
  heads : ∀ turns entered next, AtHead ledger heap (palette.whiten ledger) turns entered next →
    next.Tricolor ledger heap entered ∧ turns + next.queue.length = entered.length ∧
      entered.length ≤ ledger.trackedCount
  ends : ∃ turns entered, AtHead ledger heap (palette.whiten ledger) turns entered (palette.mark ledger heap)
  stuck : (palette.mark ledger heap).scan ledger heap = none
  queue : (palette.mark ledger heap).queue = []
  ungray : ∀ slot : Slot, (palette.mark ledger heap).colors[slot]? ≠ some .gray
  black : ∀ (slot : Slot) (entry : Entry), ledger.entries[slot]? = some entry → 0 < entry.held →
    (palette.mark ledger heap).colors[slot]? = some .black
  /-- What is white in the end is what a settle takes for dead. -/
  white : ((palette.mark ledger heap).having .white).toList = ledger.dead heap

theorem queue_mark (palette : Palette) (ledger : Ledger) (heap : Heap) : (palette.mark ledger heap).queue = [] :=
  queue_of_stuck (scan_run ledger heap _)

theorem marks_of_empty (ledger : Ledger) (heap : Heap) (empty : palette.queue = []) :
    palette.Marks ledger heap := by
  obtain ⟨_, shaded, tricolor⟩ := tricolor_first ledger heap empty
  obtain ⟨turns, entered, head⟩ := (AtHead.first shaded).run tricolor
  obtain ⟨ungray, black⟩ := (head.tricolor empty).1.ended (queue_mark palette ledger heap)
  constructor
  · exact marking_whiten ledger heap empty
  · intro turns entered next head
    exact (head.tricolor empty).1.toQueued.marking_scan
  · intro turns entered next head
    obtain ⟨tricolor, left⟩ := head.tricolor empty
    exact ⟨tricolor, left, tricolor.length_le⟩
  · exact ⟨turns, entered, head⟩
  · exact scan_run ledger heap _
  · exact queue_mark palette ledger heap
  · exact ungray
  · exact black
  · show (Palette.marking _).white.toList = _
    rw [mark, tricolor.toQueued.marking_run, marking_shadeAll, marking_whiten ledger heap empty]
    rfl

end Palette

end Reclaim
