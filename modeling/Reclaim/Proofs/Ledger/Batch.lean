import Reclaim.Proofs.Ledger.Shedding
import Reclaim.Proofs.Procedures

/-! The removal of any batch of slots in use, whatever edges the ledger records. It is refused where the edges
from the batch are not those of the contents, or where the total does not cover the children, and has
written nothing then. Otherwise the values of the batch go, each reported and released once, and the values
that stay lose the edges from those of the batch that contained them. -/

set_option autoImplicit false

namespace Reclaim

namespace Ledger

variable {ledger : Ledger} {heap : Heap} {created : Nat} {slot owner : Slot} {entry ownerEntry : Entry}
  {batch : List Slot} {removal : Removal}

/-- The edges from a batch to tracked values outside of it count the places that contain them. -/
def Matches (ledger : Ledger) (heap : Heap) (batch : List Slot) : Prop :=
  ∀ owner ∈ ledger.items batch, ∀ child ∈ ledger.tracked, child ∉ ledger.items batch →
    heap.Contains owner child →
      ledger.edges (.shared child) (.shared owner) = (heap.children owner).count (.shared child)

def OwnsFrom (ledger : Ledger) (heap : Heap) (batch : List Slot) (ref : Ref) (owner : Slot) : Prop :=
  owner ∈ batch ∧ ∃ entry, ledger.entries[owner]? = some entry ∧ heap.Contains entry.item ref

/-- What the removal of a batch does. The latest freed slot comes first among the free ones. -/
structure Reclaims (ledger : Ledger) (heap : Heap) (batch : List Slot) (removal : Removal) : Prop where
  total : removal.ledger.total + heap.childTotal (ledger.items batch) = ledger.total
  tracked : ∀ ref, ref ∈ removal.ledger.tracked ↔ ref ∈ ledger.tracked ∧ ref ∉ ledger.items batch
  index : ∀ id, removal.ledger.slot? id = (ledger.slot? id).filter (!batch.contains ·)
  pending : ∀ slot, slot ∈ removal.ledger.pending ↔ slot ∈ ledger.pending ∧ slot ∉ batch
  free : removal.ledger.free = batch.reverse ++ ledger.free
  bound : removal.ledger.bound = ledger.bound
  vacant : ∀ slot ∈ batch, removal.ledger.entries[slot]? = none
  kept : ∀ slot entry, ledger.entries[slot]? = some entry → slot ∉ batch → ∃ left,
    removal.ledger.entries[slot]? = some left ∧ left.item = entry.item ∧ left.held = entry.held ∧
      ∀ owner, (ledger.OwnsFrom heap batch entry.item owner → left.owners[owner]? = none) ∧
        (¬ledger.OwnsFrom heap batch entry.item owner → left.owners[owner]? = entry.owners[owner]?)
  reported : removal.removed = (ledger.items batch).map fun ref => (ref, heap.childCount ref)
  once : (ledger.items batch).Nodup
  released : removal.heap = heap.releaseAll (ledger.items batch)

section Contents

theorem Valid.edges_of_entries (valid : ledger.Valid) (found : ledger.entries[slot]? = some entry)
    (ownerFound : ledger.entries[owner]? = some ownerEntry) :
    ledger.edges (.shared entry.item) (.shared ownerEntry.item) = ledger.edgesAt slot owner := by
  have located : ledger.slotOf? (.shared entry.item) = some slot := valid.slot_of_entry found
  have placed : ledger.slotOf? (.shared ownerEntry.item) = some owner := valid.slot_of_entry ownerFound
  simp only [edges, located, placed]

theorem Valid.occupied_of_childSlots (valid : ledger.Valid) (listed : slot ∈ ledger.childSlots heap owner) :
    ∃ entry, ledger.entries[slot]? = some entry := by
  unfold childSlots at listed
  split at listed
  next => exact absurd listed List.not_mem_nil
  next =>
    obtain ⟨value, _, located⟩ := List.mem_filterMap.mp listed
    obtain ⟨id, _, known⟩ := Option.bind_eq_some_iff.mp located
    obtain ⟨entry, found, _⟩ := valid.entry_of_slot? known
    exact ⟨entry, found⟩

theorem Housed.edgesMatch_iff (housed : ledger.Housed heap created)
    (ownerFound : ledger.entries[owner]? = some ownerEntry) :
    ledger.edgesMatch heap batch owner ↔ ∀ child ∈ ledger.tracked, child ∉ ledger.items batch →
      heap.Contains ownerEntry.item child → ledger.edges (.shared child) (.shared ownerEntry.item) =
        (heap.children ownerEntry.item).count (.shared child) := by
  have counted : ∀ slot, slot ∉ batch →
      (ledger.outgoing heap batch owner).count slot = (ledger.childSlots heap owner).count slot :=
    fun slot outside => List.count_filter (by simp [outside])
  unfold edgesMatch
  simp only [List.all_eq_true, beq_iff_eq]
  constructor
  · intro same child tracked outside contains
    obtain ⟨slot, entry, found, rfl⟩ := mem_tracked.mp tracked
    have outside : slot ∉ batch := mt (housed.valid.mem_items_iff found).mpr outside
    have listed : slot ∈ ledger.outgoing heap batch owner :=
      List.mem_filter.mpr ⟨(housed.mem_childSlots found ownerFound).mpr contains, by simp [outside]⟩
    rw [housed.valid.edges_of_entries found ownerFound, same slot listed, counted slot outside,
      housed.count_childSlots found ownerFound]
  · intro same slot listed
    obtain ⟨listed, outside⟩ := List.mem_filter.mp listed
    have outside : slot ∉ batch := by simpa using outside
    obtain ⟨entry, found⟩ := housed.valid.occupied_of_childSlots listed
    have contains := (housed.mem_childSlots found ownerFound).mp listed
    have edges := same entry.item (tracked_of_entry found)
      (mt (housed.valid.mem_items_iff found).mp outside) contains
    rw [counted slot outside, housed.count_childSlots found ownerFound, ← edges,
      housed.valid.edges_of_entries found ownerFound]

theorem Housed.matches_iff (housed : ledger.Housed heap created)
    (occupied : ∀ slot ∈ batch, ledger.entries[slot]?.isSome) :
    ledger.Matches heap batch ↔ batch.all (ledger.edgesMatch heap batch) := by
  rw [List.all_eq_true]
  constructor
  · intro same owner member
    obtain ⟨ownerEntry, ownerFound⟩ := Option.isSome_iff_exists.mp (occupied owner member)
    exact (housed.edgesMatch_iff ownerFound).mpr
      (same ownerEntry.item ((housed.valid.mem_items_iff ownerFound).mpr member))
  · intro same ref listed
    obtain ⟨owner, member, ownerEntry, ownerFound, rfl⟩ := mem_items.mp listed
    exact (housed.edgesMatch_iff ownerFound).mp (same owner member)

theorem Housed.ownsFrom_iff (housed : ledger.Housed heap created)
    (found : ledger.entries[slot]? = some entry) (outside : slot ∉ batch) :
    ledger.OwnsFrom heap batch entry.item owner ↔
      (batch.contains owner && (ledger.outgoing heap batch owner).contains slot) = true := by
  have listed_iff : slot ∈ ledger.outgoing heap batch owner ↔ slot ∈ ledger.childSlots heap owner := by
    simp [outgoing, outside]
  rw [Bool.and_eq_true, List.contains_iff_mem, List.contains_iff_mem, listed_iff]
  refine and_congr_right fun _ => ?_
  constructor
  · rintro ⟨ownerEntry, ownerFound, contains⟩
    exact (housed.mem_childSlots found ownerFound).mpr contains
  · intro listed
    cases ownerFound : ledger.entries[owner]? with
    | none => simp [childSlots, ownerFound] at listed
    | some ownerEntry =>
      exact ⟨ownerEntry, rfl, (housed.mem_childSlots found ownerFound).mp listed⟩

end Contents

end Ledger

namespace Removal

variable {before : Removal} {batch : List Slot}

theorem free_foldl_next (nodup : batch.Nodup)
    (occupied : ∀ slot ∈ batch, before.ledger.entries[slot]?.isSome) :
    (batch.foldl next before).ledger.free = batch.reverse ++ before.ledger.free ∧
      (batch.foldl next before).ledger.bound = before.ledger.bound := by
  induction batch generalizing before with
  | nil => exact ⟨rfl, rfl⟩
  | cons slot rest ih =>
    obtain ⟨fresh, nodup⟩ := List.nodup_cons.mp nodup
    obtain ⟨here, occupied⟩ := List.forall_mem_cons.mp occupied
    obtain ⟨entry, found⟩ := Option.isSome_iff_exists.mp here
    rw [List.foldl_cons, next_of_entry found]
    have left : ∀ other ∈ rest, (before.freed slot entry).ledger.entries[other]?.isSome := by
      intro other member
      have apart : slot ≠ other := fun same => fresh (same ▸ member)
      have kept : (before.freed slot entry).ledger.entries[other]? = _ :=
        before.ledger.getElem?_erase slot entry.item.id other
      rw [kept, if_neg apart]
      exact occupied other member
    obtain ⟨free, bound⟩ := ih nodup left
    refine ⟨?_, bound⟩
    rw [free, List.reverse_cons, List.append_assoc]
    rfl

namespace InPlace

/-- What has been found out about members of a batch: their places in all, and the tracked children outside
of the batch, each with its owner, once per place. -/
structure Survey where
  held : Nat := 0
  outward : List (Slot × Slot) := []

def survey (batch : List Slot) (found : Survey) : List Slot → EStateM LedgerError Removal Survey
  | [] => return found
  | slot :: rest => do
    let removal ← get
    match removal.ledger.entries[slot]? with
    | none => throw (.inconsistent .slotNotTracked)
    | some entry =>
      survey batch
        { held := found.held + removal.heap.childCount entry.item
          outward := found.outward ++ (removal.ledger.outgoing removal.heap batch slot).map (·, slot) }
        rest

def forget (removal : Removal) (edge : Slot × Slot) : Removal :=
  { removal with ledger := removal.ledger.detach [edge.1] edge.2 }

/-- Remove the values in the slots of a batch. All is looked up and checked before anything is written. -/
def reclaim (batch : List Slot) : EStateM LedgerError Removal Unit := do
  let found ← survey batch {} batch
  let recorded := (← get).ledger.edgesAt
  refuseIf (¬∀ edge ∈ found.outward, recorded edge.1 edge.2 = found.outward.count edge)
    (.inconsistent .edgesDiffer)
  refuseIf ((← get).ledger.total < found.held) .totalUnderflow
  modify fun removal => { removal with ledger.total := removal.ledger.total - found.held }
  found.outward.forM fun edge => modify (forget · edge)
  batch.forM fun slot => modify (·.next slot)

variable {ledger : Ledger} {heap : Heap}

def outward (targets : Slot → List Slot) (batch : List Slot) : List (Slot × Slot) :=
  batch.flatMap fun owner => (targets owner).map (·, owner)

theorem run_survey {rest : List Slot} (found : Survey)
    (occupied : ∀ slot ∈ rest, before.ledger.entries[slot]?.isSome) :
    (survey batch found rest).run before = .ok
      { held := found.held + before.ledger.heldByBatch before.heap rest
        outward := found.outward ++ outward (before.ledger.outgoing before.heap batch) rest } before := by
  induction rest generalizing found with
  | nil => simp [survey, outward, Ledger.heldByBatch]
  | cons slot rest ih =>
    obtain ⟨here, occupied⟩ := List.forall_mem_cons.mp occupied
    obtain ⟨entry, present⟩ := Option.isSome_iff_exists.mp here
    have held : before.ledger.heldByBatch before.heap (slot :: rest) =
        before.heap.childCount entry.item + before.ledger.heldByBatch before.heap rest := by
      simp [Ledger.heldByBatch, Ledger.childCountAt, present]
    have pairs : outward (before.ledger.outgoing before.heap batch) (slot :: rest) =
        (before.ledger.outgoing before.heap batch slot).map (·, slot) ++
          outward (before.ledger.outgoing before.heap batch) rest := List.flatMap_cons
    show EStateM.run (match before.ledger.entries[slot]? with | none => _ | some entry => _) before = _
    rw [present, held, pairs, ← Nat.add_assoc, ← List.append_assoc]
    exact ih _ occupied

theorem mem_outward {targets : Slot → List Slot} {child owner : Slot} :
    (child, owner) ∈ outward targets batch ↔ owner ∈ batch ∧ child ∈ targets owner := by
  simp [outward]

theorem count_outward {targets : Slot → List Slot} {child owner : Slot} (nodup : batch.Nodup)
    (member : owner ∈ batch) : (outward targets batch).count (child, owner) = (targets owner).count child := by
  -- A pair is found once per place, because its owner is in the batch once.
  have of_owner : ∀ slot, ((targets slot).map (·, slot)).count (child, owner) =
      if slot = owner then (targets slot).count child else 0 := by
    intro slot
    split
    next here =>
      subst here
      exact List.count_map_of_injective _ (·, slot) (fun first second same => (Prod.mk.inj same).1) child
    next apart =>
      refine List.count_eq_zero.mpr fun listed => apart ?_
      obtain ⟨_, _, same⟩ := List.mem_map.mp listed
      exact (Prod.mk.inj same).2
  induction batch with
  | nil => exact absurd member List.not_mem_nil
  | cons slot rest ih =>
    obtain ⟨fresh, nodup⟩ := List.nodup_cons.mp nodup
    have split : outward targets (slot :: rest) =
        (targets slot).map (·, slot) ++ outward targets rest := List.flatMap_cons
    rw [split, List.count_append, of_owner]
    rcases List.mem_cons.mp member with rfl | later
    · have none : (outward targets rest).count (child, owner) = 0 :=
        List.count_eq_zero.mpr fun listed => fresh (mem_outward.mp listed).1
      rw [if_pos rfl, none, Nat.add_zero]
    · have apart : slot ≠ owner := fun same => fresh (same ▸ later)
      rw [if_neg apart, ih nodup later, Nat.zero_add]

/-- The pairs are checked as the members are. -/
theorem outward_match_iff (nodup : batch.Nodup) :
    (∀ edge ∈ outward (ledger.outgoing heap batch) batch, ledger.edgesAt edge.1 edge.2 =
        (outward (ledger.outgoing heap batch) batch).count edge) ↔
      batch.all (ledger.edgesMatch heap batch) := by
  simp only [List.all_eq_true, Ledger.edgesMatch, beq_iff_eq]
  constructor
  · intro same owner member child listed
    rw [same (child, owner) (mem_outward.mpr ⟨member, listed⟩), count_outward nodup member]
  · rintro same ⟨child, owner⟩ pair
    obtain ⟨member, listed⟩ := mem_outward.mp pair
    rw [count_outward nodup member]
    exact same owner member child listed

theorem foldl_forget_map (children : List Slot) (owner : Slot) (start : Removal) :
    (children.map (·, owner)).foldl forget start =
      { start with ledger := start.ledger.detach children owner } := by
  induction children generalizing start with
  | nil => rfl
  | cons child rest ih => exact ih (forget start (child, owner))

/-- Forgetting the edges pair by pair is forgetting them member by member. -/
theorem foldl_forget_outward (targets : Slot → List Slot) (start : Removal) :
    (outward targets batch).foldl forget start =
      { start with ledger := start.ledger.detachAll targets batch } := by
  unfold outward Ledger.detachAll
  rw [List.foldl_flatMap]
  induction batch generalizing start with
  | nil => rfl
  | cons owner rest ih => rw [List.foldl_cons, List.foldl_cons, foldl_forget_map, ih]

theorem detach_withTotal (children : List Slot) (owner : Slot) (total : Nat) :
    Ledger.detach { ledger with total } children owner = { ledger.detach children owner with total } := by
  unfold Ledger.detach
  induction children generalizing ledger with
  | nil => rfl
  | cons child rest ih => exact @ih (ledger.update child _)

theorem detachAll_withTotal (targets : Slot → List Slot) (total : Nat) :
    Ledger.detachAll { ledger with total } targets batch = { ledger.detachAll targets batch with total } := by
  unfold Ledger.detachAll
  induction batch generalizing ledger with
  | nil => rfl
  | cons owner rest ih => rw [List.foldl_cons, List.foldl_cons, detach_withTotal, ih]

/-- The procedure comes to the removal of the batch, and has written nothing when it is refused. -/
theorem carriesOut_reclaim (nodup : batch.Nodup) (occupied : ∀ slot ∈ batch, ledger.entries[slot]?.isSome) :
    CarriesOut (fun _ => True) (reclaim batch) { ledger, heap } (ledger.reclaim heap batch) := by
  rw [Ledger.reclaim_of_occupied occupied]
  have surveyed := @run_survey { ledger, heap } batch batch {} occupied
  rw [Nat.zero_add, List.nil_append] at surveyed
  refine .looks surveyed (.reads ?_)
  have unmatched : (!batch.all (ledger.edgesMatch heap batch)) = true ↔
      ¬∀ edge ∈ outward (ledger.outgoing heap batch) batch, ledger.edgesAt edge.1 edge.2 =
        (outward (ledger.outgoing heap batch) batch).count edge := by
    rw [outward_match_iff nodup]
    simp
  simp only [unmatched, ← Ledger.heldByBatch_eq]
  refine .checks fun _ => .reads (.checks fun _ => ?_)
  -- What is left only writes: the total, the edges one by one, and then the slots.
  show EStateM.run _ _ = _
  rw [EStateM.run_bind, EStateM.run_modify]
  simp only
  rw [EStateM.run_bind, run_forM_modify]
  simp only
  rw [run_forM_modify, foldl_forget_outward, detachAll_withTotal]

end InPlace

end Removal

namespace Ledger

variable {ledger : Ledger} {heap : Heap} {created : Nat} {batch : List Slot} {removal : Removal}

structure BatchRemoval (ledger : Ledger) (heap : Heap) (batch : List Slot) : Prop where
  inconsistent : ∀ cause, ledger.reclaim heap batch = .error (.inconsistent cause) ↔
    cause = .edgesDiffer ∧ ¬ledger.Matches heap batch
  totalUnderflow : ledger.reclaim heap batch = .error .totalUnderflow ↔
    ledger.Matches heap batch ∧ ledger.total < heap.childTotal (ledger.items batch)
  succeeds : (∃ removal, ledger.reclaim heap batch = .ok removal) ↔
    ledger.Matches heap batch ∧ heap.childTotal (ledger.items batch) ≤ ledger.total
  effect : ∀ removal, ledger.reclaim heap batch = .ok removal → ledger.Reclaims heap batch removal
  inPlace : CarriesOut (fun _ => True) (Removal.InPlace.reclaim batch) { ledger, heap }
    (ledger.reclaim heap batch)

namespace Cuts

variable {slot : Slot} {entry : Entry}

theorem vacant (cuts : ledger.Cuts heap batch removal) (member : slot ∈ batch) :
    removal.ledger.entries[slot]? = none := by
  rw [cuts.entries, if_pos member]

theorem items_left (cuts : ledger.Cuts heap batch removal) (slot : Slot) :
    removal.ledger.entries[slot]?.map (·.item) =
      if slot ∈ batch then none else ledger.entries[slot]?.map (·.item) := by
  rw [cuts.entries]
  split
  · rfl
  · rw [Option.map_map]
    rfl

theorem kept (cuts : ledger.Cuts heap batch removal) (housed : ledger.Housed heap created)
    (found : ledger.entries[slot]? = some entry) (outside : slot ∉ batch) :
    ∃ left, removal.ledger.entries[slot]? = some left ∧ left.item = entry.item ∧ left.held = entry.held ∧
      ∀ owner, (ledger.OwnsFrom heap batch entry.item owner → left.owners[owner]? = none) ∧
        (¬ledger.OwnsFrom heap batch entry.item owner → left.owners[owner]? = entry.owners[owner]?) := by
  have left := cuts.entries slot
  rw [if_neg outside, found] at left
  refine ⟨_, left, rfl, rfl, fun owner => ?_⟩
  simp only [housed.ownsFrom_iff found outside, Std.ExtTreeMap.getElem?_filter']
  generalize (batch.contains owner && (ledger.outgoing heap batch owner).contains slot) = owns
  cases owns <;> cases entry.owners[owner]? <;> simp

end Cuts

theorem Valid.slots_of_reclaim (valid : ledger.Valid) (nodup : batch.Nodup)
    (occupied : ∀ slot ∈ batch, ledger.entries[slot]?.isSome)
    (reclaimed : ledger.reclaim heap batch = .ok removal) :
    removal.ledger.free = batch.reverse ++ ledger.free ∧ removal.ledger.bound = ledger.bound ∧
      ∀ slot, slot ∈ removal.ledger.pending ↔ slot ∈ ledger.pending ∧ slot ∉ batch := by
  have cuts := valid.cuts nodup reclaimed
  rw [reclaim_of_occupied occupied] at reclaimed
  split at reclaimed
  next => cases reclaimed
  split at reclaimed
  next => cases reclaimed
  let start : Removal :=
    { ledger := { ledger.detachAll (ledger.outgoing heap batch) batch with
        total := ledger.total - heap.childTotal (ledger.items batch) }
      heap }
  obtain rfl : batch.foldl Removal.next start = removal := Except.ok.inj reclaimed
  -- Edges are forgotten before the slots are freed, and that changes entries only.
  have rest := ledger.detachAll_rest (ledger.outgoing heap batch) batch
  have free : start.ledger.free = ledger.free := (congrArg Ledger.free rest :)
  have bound : start.ledger.bound = ledger.bound := (congrArg Ledger.bound rest :)
  have pending : start.ledger.pending = ledger.pending := (congrArg Ledger.pending rest :)
  have inUse : ∀ slot ∈ batch, start.ledger.entries[slot]?.isSome := by
    intro slot member
    simp only [start]
    rw [entries_detachAll, Option.isSome_map]
    exact occupied slot member
  have frees := Removal.frees_foldl start (valid.detachAll _ batch).withTotal nodup
  obtain ⟨freed, bounded⟩ := Removal.free_foldl_next nodup inUse
  refine ⟨free ▸ freed, bounded.trans bound, fun slot => ?_⟩
  by_cases member : slot ∈ batch
  · refine iff_of_false (fun waiting => ?_) fun kept => kept.2 member
    obtain ⟨entry, found⟩ := cuts.valid.pending_mem slot waiting
    rw [cuts.vacant member] at found
    cases found
  · rw [and_iff_left member, ← Std.ExtTreeSet.contains_iff_mem, frees.pending slot member, pending,
      Std.ExtTreeSet.contains_iff_mem]

namespace Housed

variable (housed : ledger.Housed heap created) (nodup : batch.Nodup)
  (occupied : ∀ slot ∈ batch, ledger.entries[slot]?.isSome)
include housed occupied

include nodup in
theorem reclaims (reclaimed : ledger.reclaim heap batch = .ok removal) : ledger.Reclaims heap batch removal := by
  have cuts := housed.valid.cuts nodup reclaimed
  obtain ⟨free, bound, pending⟩ := housed.valid.slots_of_reclaim nodup occupied reclaimed
  exact
    { total := cuts.total
      tracked := fun ref => cuts.tracked_iff housed.valid
      index := housed.valid.slot?_filter cuts.valid cuts.items_left
      pending, free, bound
      vacant := fun slot => cuts.vacant
      kept := fun slot entry => cuts.kept housed
      reported := cuts.removed
      once := housed.valid.nodup_items nodup
      released := cuts.released }

theorem reclaim_cases :
    (¬ledger.Matches heap batch ∧ ledger.reclaim heap batch = .error (.inconsistent .edgesDiffer)) ∨
      (ledger.Matches heap batch ∧ ledger.total < heap.childTotal (ledger.items batch) ∧
        ledger.reclaim heap batch = .error .totalUnderflow) ∨
      ledger.Matches heap batch ∧ heap.childTotal (ledger.items batch) ≤ ledger.total ∧
        ∃ removal, ledger.reclaim heap batch = .ok removal := by
  rw [reclaim_of_occupied occupied, housed.matches_iff occupied]
  cases batch.all (ledger.edgesMatch heap batch) with
  | false => exact .inl ⟨Bool.false_ne_true, rfl⟩
  | true =>
    refine .inr ?_
    by_cases short : ledger.total < heap.childTotal (ledger.items batch)
    · exact .inl ⟨rfl, short, if_pos short⟩
    · exact .inr ⟨rfl, Nat.le_of_not_lt short, _, if_neg short⟩

include nodup in
theorem batchRemoval : ledger.BatchRemoval heap batch where
  inconsistent cause := by
    obtain ⟨differ, refused⟩ | ⟨same, _, refused⟩ | ⟨same, _, _, removed⟩ := housed.reclaim_cases occupied
    · simp [refused, differ, eq_comm]
    · simp [refused, same]
    · simp [removed, same]
  totalUnderflow := by
    obtain ⟨differ, refused⟩ | ⟨same, short, refused⟩ | ⟨_, covered, _, removed⟩ := housed.reclaim_cases occupied
    · simp [refused, differ]
    · simp [refused, same, short]
    · simp [removed, covered]
  succeeds := by
    obtain ⟨differ, refused⟩ | ⟨_, short, refused⟩ | ⟨same, covered, _, removed⟩ := housed.reclaim_cases occupied
    · simp [refused, differ]
    · simp [refused, short]
    · simp [removed, same, covered]
  effect removal := housed.reclaims nodup occupied
  inPlace := Removal.InPlace.carriesOut_reclaim nodup occupied

end Housed

end Ledger

end Reclaim
