import Reclaim.Proofs.Arena.Basic
import Reclaim.Proofs.Arena.Blocks
import Reclaim.Proofs.Ledger.Removal

/-! The removal of a batch from an arena. What the members hold is added up before anything changes: their
children, and for each member how often it contains each child outside of the batch. Then the members are
taken out of the array one by one, and each slot that is freed is one tracked value less. -/

set_option autoImplicit false

namespace Reclaim

/-- What the members of a batch hold: the number of their children, and for each member the edges to its
children outside of the batch. -/
structure Holdings where
  held : Nat := 0
  outgoing : List (Slot × SlotMap Nat) := []

structure Clearance where
  arena : Arena
  heap : Heap
  removed : List (Ref × Nat) := []

def tally (children : List Slot) : Checked (SlotMap Nat) :=
  children.foldlM (fun counted child => do
    let edges ← addUp (counted.getD child 0) 1
    return counted.insert child edges) ∅

namespace Arena

def outgoing (arena : Arena) (heap : Heap) (batch : List Slot) (item : Ref) : List Slot :=
  ((heap.children item).filterMap arena.slotOf?).filter (!batch.contains ·)

def survey (arena : Arena) (heap : Heap) (batch : List Slot) :
    List Slot → Holdings → Checked (Except LedgerError Holdings)
  | [], holdings => return .ok holdings
  | slot :: members, holdings =>
    match arena.occupant? slot with
    | none => return .error (.inconsistent .slotNotTracked)
    | some entry => do
      let held ← addUp holdings.held (heap.childCount entry.item)
      let edges ← tally (arena.outgoing heap batch entry.item)
      arena.survey heap batch members { held, outgoing := holdings.outgoing ++ [(slot, edges)] }

def records (arena : Arena) (owner : Slot) (edges : SlotMap Nat) : Bool :=
  edges.toList.all fun (child, count) =>
    ((arena.occupant? child).bind fun entry => entry.owners[owner]?) == some count

def detach (arena : Arena) (owner : Slot) (edges : SlotMap Nat) : Arena :=
  edges.keys.foldl (fun arena child =>
    arena.change child fun entry => { entry with owners := entry.owners.erase owner }) arena

def vacate (arena : Arena) (slot : Slot) (id : Ident) : Checked Arena := do
  let slots ← writeAt arena.slots slot none
  let tracked ← takeOff arena.tracked 1
  return { arena with
    slots, tracked
    free := slot :: arena.free
    index := arena.index.erase id
    pending := arena.pending.erase slot }

end Arena

def Clearance.next (clearance : Clearance) (slot : Slot) : Checked Clearance := do
  match ← readAt clearance.arena.slots slot with
  | none => return clearance
  | some entry =>
    let arena ← clearance.arena.vacate slot entry.item.id
    let heap ← clearance.heap.letGo entry.item
    return { arena, heap
             removed := clearance.removed ++ [(entry.item, clearance.heap.childCount entry.item)] }

def Arena.reclaim (arena : Arena) (heap : Heap) (batch : List Slot) :
    Checked (Except LedgerError Clearance) := do
  match ← arena.survey heap batch batch {} with
  | .error error => return .error error
  | .ok holdings =>
    if !holdings.outgoing.all fun (owner, edges) => arena.records owner edges then
      return .error (.inconsistent .edgesDiffer)
    else if arena.references < holdings.held then
      return .error .totalUnderflow
    else
      let references ← takeOff arena.references holdings.held
      let detached := holdings.outgoing.foldl (fun arena (owner, edges) => arena.detach owner edges) arena
      .ok <$> batch.foldlM Clearance.next { arena := { detached with references }, heap }

variable {arena : Arena} {ledger : Ledger} {heap : Heap} {few : Prop} {batch members children : List Slot}
  {slot owner child : Slot} {entry : Entry} {edges : SlotMap Nat}

def Counts (edges : SlotMap Nat) (children : List Slot) : Prop :=
  ∀ child, edges[child]? = if child ∈ children then some (children.count child) else none

theorem safe_tally (children : List Slot) : Safe few (Counts · children) (tally children) := by
  unfold tally
  have start : Counts ∅ [] := fun _ => rfl
  -- What has been counted is the tally of what has been listed so far.
  suffices counted : ∀ (rest listed : List Slot) (edges : SlotMap Nat), Counts edges listed →
      Safe few (Counts · (listed ++ rest)) (rest.foldlM (fun counted child => do
        let edges ← addUp (counted.getD child 0) 1
        return counted.insert child edges) edges) by
    simpa using counted children [] ∅ start
  intro rest
  induction rest with
  | nil =>
    intro listed edges counts
    rw [List.append_nil]
    exact counts
  | cons child rest ih =>
    intro listed edges counts
    rw [List.foldlM_cons]
    have one : Safe few (Counts · (listed ++ [child])) (do
        let more ← addUp (edges.getD child 0) 1
        return edges.insert child more : Checked (SlotMap Nat)) := by
      refine (safe_addUp _ 1).bind fun more added => ?_
      obtain ⟨rfl, _⟩ := addCount_eq_ok_iff.mp added
      intro other
      have before := counts other
      rw [getElem?_insert_key, Std.ExtTreeMap.getD_eq_getD_getElem?]
      by_cases here : child = other
      · subst here
        rw [if_pos rfl, if_pos (by simp), before, List.count_append]
        by_cases again : child ∈ listed
        · simp [again]
        · simp [again, List.count_eq_zero.mpr again]
      · simp [here, before, Ne.symm here, List.count_append]
    have later := one.bind fun next counts => ih (listed ++ [child]) next counts
    rwa [List.append_assoc, List.singleton_append] at later

theorem Counts.mem_keys (counts : Counts edges children) : child ∈ edges.keys ↔ child ∈ children := by
  rw [Std.ExtTreeMap.mem_keys, ← Std.ExtTreeMap.isSome_getElem?_iff_mem, counts]
  split <;> simp_all

namespace Arena

namespace Shows

theorem outgoing (shows : arena.Shows ledger) (found : ledger.entries[slot]? = some entry) :
    arena.outgoing heap batch entry.item = ledger.outgoing heap batch slot := by
  unfold Arena.outgoing Ledger.outgoing Ledger.childSlots
  rw [found, funext shows.slotOf?]

theorem records (shows : arena.Shows ledger) (counts : Counts edges (ledger.outgoing heap batch owner)) :
    arena.records owner edges = ledger.edgesMatch heap batch owner := by
  -- Nothing is recorded where no edge is, so the counts agree if what is recorded does.
  have recorded {child : Slot} (listed : child ∈ ledger.outgoing heap batch owner) :
      ((arena.occupant? child).bind fun entry => entry.owners[owner]?) =
          some ((ledger.outgoing heap batch owner).count child) ↔
        ledger.edgesAt child owner = (ledger.outgoing heap batch owner).count child := by
    have positive := List.count_pos_iff.mpr listed
    rw [Ledger.edgesAt, shows.entries]
    cases ledger.entries[child]?.bind fun entry => entry.owners[owner]? with
    | none => simp only [reduceCtorEq, Option.getD_none, false_iff]; omega
    | some found => simp
  unfold Arena.records Ledger.edgesMatch
  rw [Bool.eq_iff_iff]
  simp only [List.all_eq_true, Prod.forall, Std.ExtTreeMap.mem_toList_iff_getElem?_eq_some, beq_iff_eq]
  constructor
  · intro all child listed
    exact (recorded listed).mp (all child _ ((counts child).trans (if_pos listed)))
  · intro all child count counted
    rw [counts child] at counted
    split at counted
    next listed =>
      cases counted
      exact (recorded listed).mpr (all child listed)
    next => cases counted

theorem detach (shows : arena.Shows ledger) (counts : Counts edges children) (owner : Slot) :
    (arena.detach owner edges).Shows (ledger.detach children owner) := by
  -- The order of the children and their repetition make no difference.
  have same : ledger.detach children owner = ledger.detach edges.keys owner := by
    rw [Ledger.detach_rest, Ledger.detach_rest edges.keys]
    congr 1
    apply Std.ExtTreeMap.ext_getElem?
    intro child
    simp only [Ledger.entries_detach, counts.mem_keys]
  rw [same]
  clear same counts
  unfold Arena.detach Ledger.detach
  generalize edges.keys = keys
  induction keys generalizing arena ledger with
  | nil => exact shows
  | cons child rest ih => exact ih (shows.change fun _ _ => rfl)

end Shows

def Tallied (ledger : Ledger) (heap : Heap) (batch : List Slot) :
    List Slot → List (Slot × SlotMap Nat) → Prop :=
  List.Forall₂ fun slot tallied => tallied.1 = slot ∧ Counts tallied.2 (ledger.outgoing heap batch slot)

namespace Shows

variable {outgoing : List (Slot × SlotMap Nat)} {holdings : Holdings}

theorem survey (shows : arena.Shows ledger) (members : List Slot) (holdings : Holdings) :
    Safe few (fun result =>
      if members.any (ledger.entries[·]?.isNone) then result = .error (.inconsistent .slotNotTracked)
      else ∃ outgoing, result = .ok ⟨holdings.held + ledger.heldByBatch heap members,
        holdings.outgoing ++ outgoing⟩ ∧ Tallied ledger heap batch members outgoing)
      (arena.survey heap batch members holdings) := by
  induction members generalizing holdings with
  | nil => exact ⟨[], by simp [Ledger.heldByBatch], .nil⟩
  | cons slot members ih =>
    unfold Arena.survey
    rw [shows.entries, List.any_cons]
    cases found : ledger.entries[slot]? with
    | none => exact rfl
    | some entry =>
      simp only [Option.isNone_some, Bool.false_or]
      refine (safe_addUp _ _).bind fun held added => ?_
      obtain ⟨rfl, _⟩ := addCount_eq_ok_iff.mp added
      refine (safe_tally _).bind fun edges counts => ?_
      refine (ih _).imp fun result surveyed => ?_
      split
      next missing => rwa [if_pos missing] at surveyed
      next present =>
        rw [if_neg present] at surveyed
        obtain ⟨outgoing, rfl, tallied⟩ := surveyed
        rw [shows.outgoing found] at counts
        refine ⟨(slot, edges) :: outgoing, ?_, .cons ⟨rfl, counts⟩ tallied⟩
        simp [Ledger.heldByBatch, Ledger.childCountAt, found, Nat.add_assoc]

theorem recordsAll (shows : arena.Shows ledger) (tallied : Tallied ledger heap batch members outgoing) :
    (outgoing.all fun (owner, edges) => arena.records owner edges) =
      members.all (ledger.edgesMatch heap batch) := by
  induction tallied with
  | nil => rfl
  | @cons slot first _ _ tallied _ ih =>
    obtain ⟨owner, edges⟩ := first
    obtain ⟨rfl, counts⟩ := tallied
    rw [List.all_cons, List.all_cons, ih]
    exact congrArg (· && _) (shows.records counts)

theorem detachAll (shows : arena.Shows ledger) {first : Ledger}
    (tallied : Tallied first heap batch members outgoing) :
    (outgoing.foldl (fun arena (owner, edges) => arena.detach owner edges) arena).Shows
      (members.foldl (fun detached slot => detached.detach (first.outgoing heap batch slot) slot) ledger) := by
  -- What is detached depends on the ledger before the removal.
  induction tallied generalizing arena ledger with
  | nil => exact shows
  | cons tallied _ ih =>
    obtain ⟨rfl, counts⟩ := tallied
    exact ih (shows.detach counts _)

theorem vacate (shows : arena.Shows ledger) (found : ledger.entries[slot]? = some entry) (id : Ident) :
    Safe few (·.Shows (ledger.erase slot id)) (arena.vacate slot id) := by
  have inside := occupant?_lt ((shows.entries slot).trans found)
  have fewer : (ledger.erase slot id).trackedCount + 1 = ledger.trackedCount := by
    have erased := (toList_perm_erase found).length_eq
    rwa [Std.ExtTreeMap.length_toList, List.length_cons, Std.ExtTreeMap.length_toList, eq_comm] at erased
  unfold Arena.vacate
  refine (safe_writeAt none inside).bind ?_
  rintro _ rfl
  refine (safe_takeOff (by rw [shows.tracked, ← fewer]; exact Nat.succ_pos _)).bind ?_
  rintro _ rfl
  refine ⟨fun other => ?_, ?_, ?_, ?_, ?_, shows.references, ?_⟩
  · rw [Ledger.getElem?_erase, occupant?, Array.getElem?_setIfInBounds, if_pos inside, ← shows.entries]
    split <;> rfl
  · exact Array.size_setIfInBounds.trans shows.bound
  · exact congrArg (slot :: ·) shows.free
  · exact congrArg (·.erase id) shows.index
  · exact congrArg (·.erase slot) shows.pending
  · rw [shows.tracked, ← fewer]
    rfl

end Shows

end Arena

/-- The arena shows the ledger, the heap is the same, and the pool covers its blocks. -/
structure Clearance.Shows (clearance : Clearance) (removal : Removal) : Prop where
  arena : clearance.arena.Shows removal.ledger
  heap : clearance.heap = removal.heap
  covers : removal.heap.Covers
  removed : clearance.removed = removal.removed

namespace Clearance

variable {clearance : Clearance} {removal : Removal}

theorem bound_next (removal : Removal) (slot : Slot) : (removal.next slot).ledger.bound = removal.ledger.bound := by
  unfold Removal.next
  split <;> rfl

theorem Shows.next (shows : clearance.Shows removal) (inside : slot < removal.ledger.bound) :
    Safe few (·.Shows (removal.next slot)) (clearance.next slot) := by
  have read := shows.arena.entries slot
  have below : slot < clearance.arena.slots.size := shows.arena.bound ▸ inside
  rw [Arena.occupant?, Array.getElem?_eq_getElem below] at read
  unfold Clearance.next Removal.next
  refine (safe_readAt (Array.getElem?_eq_getElem below)).bind ?_
  rintro _ rfl
  cases found : removal.ledger.entries[slot]? with
  | none =>
    rw [found] at read
    have empty : clearance.arena.slots[slot] = none := read
    rw [empty]
    exact shows
  | some entry =>
    rw [found] at read
    have present : clearance.arena.slots[slot] = some entry := read
    rw [present, shows.heap]
    refine (shows.arena.vacate found entry.item.id).bind fun arena vacated => ?_
    refine (Heap.safe_letGo shows.covers entry.item).bind ?_
    rintro heap ⟨rfl, covers⟩
    exact ⟨vacated, rfl, covers, congrArg (· ++ _) shows.removed⟩

theorem Shows.nextAll (shows : clearance.Shows removal) (inside : ∀ slot ∈ batch, slot < removal.ledger.bound) :
    Safe few (·.Shows (batch.foldl Removal.next removal)) (batch.foldlM Clearance.next clearance) := by
  induction batch generalizing clearance removal with
  | nil => exact shows
  | cons slot rest ih =>
    obtain ⟨here, others⟩ := List.forall_mem_cons.mp inside
    rw [List.foldlM_cons]
    refine (shows.next here).bind fun next shows => ih shows fun other member => ?_
    rw [bound_next]
    exact others other member

end Clearance

/-- The removal from the arena refuses what the removal from the ledger refuses, and leaves the same. -/
theorem Arena.Shows.reclaim (shows : arena.Shows ledger) (covers : heap.Covers) (batch : List Slot) :
    Safe few (Alike Clearance.Shows · (ledger.reclaim heap batch)) (arena.reclaim heap batch) := by
  unfold Arena.reclaim Ledger.reclaim
  refine (shows.survey batch {}).bind fun result surveyed => ?_
  split at surveyed
  next missing =>
    subst surveyed
    simp only [missing, if_true]
    exact rfl
  next present =>
    obtain ⟨outgoing, rfl, tallied⟩ := surveyed
    simp only [List.nil_append, Nat.zero_add, shows.recordsAll tallied, shows.references, present]
    rw [if_neg Bool.false_ne_true]
    split
    next => exact rfl
    next =>
      split
      next => exact rfl
      next covered =>
        refine (safe_takeOff (Nat.le_of_not_lt covered)).bind ?_
        rintro _ rfl
        have detached := (shows.detachAll tallied).withReferences (ledger.total - ledger.heldByBatch heap batch)
        have start : Clearance.Shows ⟨_, heap, []⟩ ⟨_, heap, []⟩ := ⟨detached, rfl, covers, rfl⟩
        refine Safe.map (start.nextAll fun slot member => ?_) fun _ shows => shows
        -- The members are looked up in the arena as it was, and forgetting edges moves no value.
        have bound : (ledger.detachAll (ledger.outgoing heap batch) batch).bound = ledger.bound := by
          rw [Ledger.detachAll_rest]
        have tracked : ledger.entries[slot]? ≠ none := by
          simp only [List.any_eq_true, Option.isNone_iff_eq_none, not_exists, not_and] at present
          exact present slot member
        obtain ⟨entry, found⟩ := Option.ne_none_iff_exists'.mp tracked
        exact Nat.lt_of_lt_of_eq (occupant?_lt ((shows.entries slot).trans found))
          (shows.bound.trans bound.symm)

end Reclaim
