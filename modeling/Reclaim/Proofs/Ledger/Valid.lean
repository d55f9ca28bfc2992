import Mathlib.Logic.Relation
import Reclaim.Ledger.Counting
import Reclaim.Proofs.Maps
import Reclaim.Proofs.Results

/-! The arena of a ledger. The index leads from each tracked identity to the one slot that holds
it, the free slots are the empty ones below the bound, pending slots are in use and recorded
edges count at least one. The counting operations are made of five kinds of changes, and every
invariant of the arena is proved for these. -/

set_option autoImplicit false

namespace Reclaim

namespace Ledger

variable {ledger : Ledger} {ref : Ref} {slot owner : Slot} {entry : Entry} {id : Ident}

structure Valid (ledger : Ledger) : Prop where
  index_iff : ∀ id slot, ledger.slot? id = some slot ↔
    ∃ entry, ledger.entries[slot]? = some entry ∧ entry.item.id = id
  free_nodup : ledger.free.Nodup
  mem_free : ∀ slot, slot ∈ ledger.free ↔ slot < ledger.bound ∧ ledger.entries[slot]? = none
  bounded : ∀ slot entry, ledger.entries[slot]? = some entry → slot < ledger.bound
  pending_mem : ∀ slot ∈ ledger.pending, ∃ entry, ledger.entries[slot]? = some entry
  edges_pos : ∀ (slot : Slot) (entry : Entry) (owner : Slot) (edges : Nat),
    ledger.entries[slot]? = some entry → entry.owners[owner]? = some edges → 0 < edges

theorem getElem?_update_self (change : Entry → Entry) (found : ledger.entries[slot]? = some entry) :
    (ledger.update slot change).entries[slot]? = some (change entry) := by
  rw [getElem?_update, if_pos rfl, found]
  rfl

theorem valid_empty : ({} : Ledger).Valid where
  index_iff id slot := by simp [slot?]
  free_nodup := .nil
  mem_free slot := by simp
  bounded slot entry found := by simp at found
  pending_mem slot pending := by simp at pending
  edges_pos slot entry owner edges found := by simp at found

theorem bound_le_insert : ledger.bound ≤ (ledger.insert ref).bound := by
  unfold Ledger.insert
  simp only
  split <;> omega

namespace Valid

theorem slot_of_entry (valid : ledger.Valid) (found : ledger.entries[slot]? = some entry) :
    ledger.slot? entry.item.id = some slot :=
  (valid.index_iff entry.item.id slot).mpr ⟨entry, found, rfl⟩

theorem nextSlot_empty (valid : ledger.Valid) : ledger.entries[ledger.nextSlot]? = none := by
  unfold nextSlot
  cases free : ledger.free with
  | nil =>
    cases found : ledger.entries[ledger.bound]? with
    | none => exact found
    | some entry => exact absurd (valid.bounded ledger.bound entry found) (Nat.lt_irrefl _)
  | cons slot rest => exact ((valid.mem_free slot).mp (by simp [free])).2

theorem update {change : Entry → Entry} (valid : ledger.Valid)
    (item : ∀ entry, (change entry).item = entry.item)
    (edges : ∀ entry, ledger.entries[slot]? = some entry → ∀ (owner : Slot) (edges : Nat),
      (change entry).owners[owner]? = some edges → 0 < edges) :
    (ledger.update slot change).Valid where
  index_iff id other := by
    refine (valid.index_iff id other).trans ?_
    rw [getElem?_update]
    split
    next same =>
      constructor
      · rintro ⟨entry, found, same⟩
        exact ⟨change entry, by rw [found]; rfl, (congrArg Ref.id (item entry)).trans same⟩
      · rintro ⟨entry, found, same⟩
        obtain ⟨before, known, rfl⟩ := Option.map_eq_some_iff.mp found
        exact ⟨before, known, (congrArg Ref.id (item before)).symm.trans same⟩
    next => rfl
  free_nodup := valid.free_nodup
  mem_free other := by
    refine (valid.mem_free other).trans ?_
    rw [getElem?_update]
    split
    next same => simp [Ledger.update]
    next => rfl
  bounded other entry found := by
    rw [getElem?_update] at found
    split at found
    · obtain ⟨before, found, _⟩ := Option.map_eq_some_iff.mp found
      exact valid.bounded other before found
    · exact valid.bounded other entry found
  pending_mem other pending := by
    obtain ⟨entry, found⟩ := valid.pending_mem other pending
    rw [getElem?_update, found]
    split
    · exact ⟨change entry, rfl⟩
    · exact ⟨entry, rfl⟩
  edges_pos other entry owner count found recorded := by
    rw [getElem?_update] at found
    split at found
    next same =>
      subst same
      obtain ⟨before, known, rfl⟩ := Option.map_eq_some_iff.mp found
      exact edges before known owner count recorded
    next => exact valid.edges_pos other entry owner count found recorded

theorem markPending (valid : ledger.Valid) (occupied : ledger.entries[slot]?.isSome) :
    (ledger.markPending slot).Valid :=
  { valid with
    pending_mem := by
      intro other pending
      rcases NodeSet.mem_insert_iff.mp pending with rfl | pending
      · exact Option.isSome_iff_exists.mp occupied
      · exact valid.pending_mem other pending }

theorem unmark {pending : NodeSet} (valid : ledger.Valid)
    (fewer : ∀ slot ∈ pending, slot ∈ ledger.pending) : Valid { ledger with pending } :=
  { valid with pending_mem := fun slot member => valid.pending_mem slot (fewer slot member) }

theorem withTotal {total : Nat} (valid : ledger.Valid) : Valid { ledger with total } :=
  { valid with }

theorem nextSlot_lt (valid : ledger.Valid) : ledger.nextSlot < (ledger.insert ref).bound := by
  unfold Ledger.insert nextSlot
  cases free : ledger.free with
  | nil => simp
  | cons first rest =>
    have listed := (valid.mem_free first).mp (by simp [free])
    simpa using listed.1

/-- Without free slots the bound is raised, else the first free one is taken. -/
theorem mem_free_insert (valid : ledger.Valid) : slot ∈ (ledger.insert ref).free ↔
    slot < (ledger.insert ref).bound ∧ (ledger.insert ref).entries[slot]? = none := by
  rw [getElem?_insert]
  have nodup := valid.free_nodup
  have before := valid.mem_free slot
  cases free : ledger.free with
  | nil =>
    have next : ledger.nextSlot = ledger.bound := by simp [nextSlot, free]
    have bound : (ledger.insert ref).bound = ledger.bound + 1 := by simp [Ledger.insert, free]
    have rest : (ledger.insert ref).free = [] := by simp [Ledger.insert, free]
    rw [next, bound, rest]
    rw [free] at before
    simp only [List.not_mem_nil, false_iff, not_and] at before ⊢
    intro below empty
    by_cases same : ledger.bound = slot
    · simp [same] at empty
    · rw [if_neg same] at empty
      exact before (Nat.lt_of_le_of_ne (Nat.le_of_lt_succ below) (Ne.symm same)) empty
  | cons first rest =>
    have next : ledger.nextSlot = first := by simp [nextSlot, free]
    have bound : (ledger.insert ref).bound = ledger.bound := by simp [Ledger.insert, free]
    have tail : (ledger.insert ref).free = rest := by simp [Ledger.insert, free]
    rw [next, bound, tail]
    rw [free] at before nodup
    by_cases same : first = slot
    · simp [← same, (List.nodup_cons.mp nodup).1]
    · rw [if_neg same, ← before, List.mem_cons]
      simp [Ne.symm same]

theorem insert (valid : ledger.Valid) (untracked : ledger.slot? ref.id = none) :
    (ledger.insert ref).Valid where
  index_iff id slot := by
    rw [slot?_insert, getElem?_insert]
    by_cases next : ledger.nextSlot = slot
    -- The next slot was empty, so that no identity has led to it.
    · rw [if_pos next]
      constructor
      · intro known
        split at known
        next same => exact ⟨_, rfl, same⟩
        next =>
          obtain ⟨entry, found, _⟩ := (valid.index_iff id slot).mp known
          rw [← next, valid.nextSlot_empty] at found
          cases found
      · rintro ⟨entry, found, same⟩
        cases found
        rw [if_pos same, next]
    · rw [if_neg next, ← valid.index_iff]
      split
      next same => simp [next, ← same, untracked]
      next => rfl
  free_nodup := valid.free_nodup.sublist (List.tail_sublist _)
  mem_free slot := valid.mem_free_insert
  bounded slot entry found := by
    rw [getElem?_insert] at found
    split at found
    next same => exact same ▸ valid.nextSlot_lt
    next => exact Nat.lt_of_lt_of_le (valid.bounded slot entry found) bound_le_insert
  pending_mem slot pending := by
    obtain ⟨entry, found⟩ := valid.pending_mem slot pending
    rw [getElem?_insert]
    split
    · exact ⟨_, rfl⟩
    · exact ⟨entry, found⟩
  edges_pos slot entry owner edges found recorded := by
    rw [getElem?_insert] at found
    split at found
    · cases found
      simp at recorded
    · exact valid.edges_pos slot entry owner edges found recorded

end Valid

def Closed (ledger : Ledger) : Prop :=
  ∀ (slot : Slot) (entry : Entry) (owner : Slot) (edges : Nat),
    ledger.entries[slot]? = some entry → entry.owners[owner]? = some edges →
      ∃ other, ledger.entries[owner]? = some other

instance decidableClosed (ledger : Ledger) : Decidable ledger.Closed :=
  decidable_of_iff (∀ place ∈ ledger.entries.toList, ∀ record ∈ place.2.owners.toList,
      ledger.entries[record.1]?.isSome = true) <| by
    simp only [Closed, Prod.forall, Std.ExtTreeMap.mem_toList_iff_getElem?_eq_some,
      Option.isSome_iff_exists]
    exact ⟨fun all slot entry owner edges found recorded => all slot entry found owner edges recorded,
      fun closed slot entry found owner edges recorded => closed slot entry owner edges found recorded⟩

theorem Closed.unowned (closed : ledger.Closed) (empty : ledger.entries[owner]? = none)
    (found : ledger.entries[slot]? = some entry) : entry.owners[owner]? = none := by
  cases recorded : entry.owners[owner]? with
  | none => rfl
  | some edges =>
    obtain ⟨other, occupied⟩ := closed slot entry owner edges found recorded
    rw [empty] at occupied
    cases occupied

/-- What the counting operations do to a ledger, one change at a time. -/
inductive Change : Ledger → Ledger → Prop where
  | total {ledger : Ledger} (total : Nat) : Change ledger { ledger with total }
  | insert {ledger : Ledger} {ref : Ref} :
      ledger.slot? ref.id = none → Change ledger (ledger.insert ref)
  | update {ledger : Ledger} {slot : Slot} {change : Entry → Entry} :
      (∀ entry, (change entry).item = entry.item) →
      -- Owners that an entry gains are in use. The others were recorded before.
      (∀ entry, ledger.entries[slot]? = some entry → ∀ (owner : Slot) (edges : Nat),
        (change entry).owners[owner]? = some edges →
          0 < edges ∧ (entry.owners[owner]?.isSome ∨ ledger.entries[owner]?.isSome)) →
      Change ledger (ledger.update slot change)
  | mark {ledger : Ledger} {slot : Slot} :
      ledger.entries[slot]?.isSome → Change ledger (ledger.markPending slot)
  | unmark {ledger : Ledger} {pending : NodeSet} :
      (∀ slot ∈ pending, slot ∈ ledger.pending) → Change ledger { ledger with pending }

abbrev Changes : Ledger → Ledger → Prop := Relation.ReflTransGen Change

theorem Changes.keeps {next : Ledger} {Keeps : Ledger → Prop} (changes : Changes ledger next)
    (step : ∀ before after, Change before after → Keeps before → Keeps after)
    (start : Keeps ledger) : Keeps next := by
  induction changes with
  | refl => exact start
  | tail _ change ih => exact step _ _ change ih

theorem Valid.change {next : Ledger} (valid : ledger.Valid) (change : Change ledger next) :
    next.Valid := by
  cases change with
  | total _ => exact valid.withTotal
  | insert untracked => exact valid.insert untracked
  | update item edges =>
    exact valid.update item fun entry found owner count recorded =>
      (edges entry found owner count recorded).1
  | mark occupied => exact valid.markPending occupied
  | unmark fewer => exact valid.unmark fewer

theorem Valid.changes {next : Ledger} (valid : ledger.Valid) (changes : Changes ledger next) :
    next.Valid :=
  changes.keeps (fun _ _ change valid => valid.change change) valid

theorem Closed.change {next : Ledger} (closed : ledger.Closed) (change : Change ledger next) :
    next.Closed := by
  cases change with
  | total _ | mark _ | unmark _ => exact closed
  | insert untracked =>
    intro slot entry owner edges found recorded
    rw [getElem?_insert] at found ⊢
    split at found
    next =>
      cases found
      simp at recorded
    next =>
      split
      · exact ⟨_, rfl⟩
      · exact closed slot entry owner edges found recorded
  | @update changed change item edges =>
    intro slot entry owner count found recorded
    -- The owner was on record, or the change has asked for it to be in use.
    have occupied : ∃ other, ledger.entries[owner]? = some other := by
      rw [getElem?_update] at found
      split at found
      next same =>
        subst same
        obtain ⟨before, known, rfl⟩ := Option.map_eq_some_iff.mp found
        rcases (edges before known owner count recorded).2 with old | occupied
        · obtain ⟨previous, old⟩ := Option.isSome_iff_exists.mp old
          exact closed _ before owner previous known old
        · exact Option.isSome_iff_exists.mp occupied
      next => exact closed slot entry owner count found recorded
    obtain ⟨other, occupied⟩ := occupied
    rw [getElem?_update, occupied]
    split
    · exact ⟨_, rfl⟩
    · exact ⟨other, rfl⟩

theorem Closed.changes {next : Ledger} (closed : ledger.Closed) (changes : Changes ledger next) :
    next.Closed :=
  changes.keeps (fun _ _ change closed => closed.change change) closed

theorem Change.slot?_eq {next : Ledger} (change : Change ledger next)
    (known : ledger.slot? id = some slot) : next.slot? id = some slot := by
  cases change with
  | total _ | mark _ | unmark _ | update _ _ => exact known
  | @insert ref untracked =>
    rw [slot?_insert, if_neg, known]
    rintro rfl
    rw [untracked] at known
    cases known

theorem Changes.slot?_eq {next : Ledger} (changes : Changes ledger next)
    (known : ledger.slot? id = some slot) : next.slot? id = some slot :=
  changes.keeps (fun _ _ change known => change.slot?_eq known) known

theorem Valid.entry_of_slot? (valid : ledger.Valid) (known : ledger.slot? id = some slot) :
    ∃ entry, ledger.entries[slot]? = some entry ∧ entry.item.id = id :=
  (valid.index_iff id slot).mp known

theorem Change.occupied {next : Ledger} (change : Change ledger next)
    (occupied : ledger.entries[slot]?.isSome) : next.entries[slot]?.isSome := by
  cases change with
  | total _ | mark _ | unmark _ => exact occupied
  | insert _ =>
    rw [getElem?_insert]
    split
    · rfl
    · exact occupied
  | update _ _ =>
    rw [getElem?_update]
    split
    · rwa [Option.isSome_map]
    · exact occupied

theorem Changes.occupied {next : Ledger} (changes : Changes ledger next)
    (occupied : ledger.entries[slot]?.isSome) : next.entries[slot]?.isSome :=
  changes.keeps (fun _ _ change occupied => change.occupied occupied) occupied

theorem Valid.occupied (valid : ledger.Valid) (known : ledger.slot? id = some slot) :
    ledger.entries[slot]?.isSome := by
  obtain ⟨entry, found, _⟩ := valid.entry_of_slot? known
  rw [found]
  rfl

theorem changes_track (ledger : Ledger) (ref : Ref) : Changes ledger (ledger.track ref).1 := by
  unfold track
  cases known : ledger.slot? ref.id with
  | some slot => exact .refl
  | none => exact .single (.insert known)

theorem changes_trackOwner (ledger : Ledger) (ref : Ref) :
    Changes ledger (ledger.trackOwner ref).1 := by
  unfold trackOwner
  cases known : ledger.slot? ref.id with
  | some slot => exact .refl
  | none =>
    refine .tail (.single (.insert known)) (.mark ?_)
    rw [getElem?_insert, if_pos rfl]
    rfl

theorem slot?_trackOwner (ledger : Ledger) (ref : Ref) :
    (ledger.trackOwner ref).1.slot? ref.id = some (ledger.trackOwner ref).2 := by
  unfold trackOwner
  cases known : ledger.slot? ref.id with
  | some slot => exact known
  | none => exact (slot?_insert ledger ref ref.id).trans (if_pos rfl)

theorem find?_eq_some {found : Slot × Entry} :
    ledger.find? id = some found ↔
      ledger.slot? id = some found.1 ∧ ledger.entries[found.1]? = some found.2 := by
  obtain ⟨slot, entry⟩ := found
  unfold find?
  cases known : ledger.slot? id with
  | none => simp
  | some other =>
    simp only [Option.bind_some, Option.map_eq_some_iff, Prod.mk.injEq, Option.some.injEq]
    constructor
    · rintro ⟨before, found, rfl, rfl⟩
      exact ⟨rfl, found⟩
    · rintro ⟨rfl, found⟩
      exact ⟨entry, found, rfl, rfl⟩

theorem Change.setHeld (valid : ledger.Valid) (slot : Slot) (held : Entry → Nat) :
    Change ledger (ledger.update slot fun entry => { entry with held := held entry }) :=
  .update (fun _ => rfl) fun entry found owner edges recorded =>
    ⟨valid.edges_pos slot entry owner edges found recorded, .inl (by rw [recorded]; rfl)⟩

theorem track_withTotal (ledger : Ledger) (total : Nat) (ref : Ref) :
    track { ledger with total } ref = ({ (ledger.track ref).1 with total }, (ledger.track ref).2) := by
  have same : slot? { ledger with total } ref.id = ledger.slot? ref.id := rfl
  unfold track
  rw [same]
  cases ledger.slot? ref.id <;> rfl

/-- Holds that could be added. The slot of the value is no longer pending, also if none was added. -/
theorem addHolds_ok {item : Value} {count : Nat} {next : Ledger}
    (added : ledger.addHolds item count = .ok next) :
    (∃ atom, item = .scalar atom ∧ next = { ledger with total := ledger.total + count }) ∨
    ∃ ref held, item = .shared ref ∧ next =
      { (ledger.track ref).1.update (ledger.track ref).2 fun entry => { entry with held } with
        total := ledger.total + count
        pending := (ledger.track ref).1.pending.erase (ledger.track ref).2 } := by
  obtain ⟨total, sum, added⟩ := ok_of_bind added
  obtain ⟨rfl, _⟩ := addCount_eq_ok_iff.mp sum
  cases item with
  | scalar atom => exact .inl ⟨atom, rfl, (Except.ok.inj added).symm⟩
  | shared ref =>
    simp only [Value.ref?_shared, track_withTotal] at added
    obtain ⟨held, _, added⟩ := ok_of_bind added
    exact .inr ⟨ref, held, rfl, (Except.ok.inj added).symm⟩

theorem changes_addHolds {item : Value} {count : Nat} {next : Ledger} (valid : ledger.Valid)
    (added : ledger.addHolds item count = .ok next) : Changes ledger next := by
  obtain ⟨_, _, rfl⟩ | ⟨ref, held, _, rfl⟩ := addHolds_ok added
  · exact .single (.total _)
  · have tracked : Changes ledger (ledger.track ref).1 := changes_track ledger ref
    have raised := tracked.tail (.setHeld (valid.changes tracked) (ledger.track ref).2 fun _ => held)
    exact (raised.tail (.total (ledger.total + count))).tail (.unmark fun slot member =>
      (NodeSet.mem_erase_iff.mp member).2)

theorem removeHold_ok {item : Value} {next : Ledger} (removed : ledger.removeHold item = .ok next) :
    (∃ atom, item = .scalar atom ∧ next = { ledger with total := ledger.total - 1 }) ∨
    ∃ ref slot entry, item = .shared ref ∧ ledger.find? ref.id = some (slot, entry) ∧ next =
      let dropped := { ledger with total := ledger.total - 1 }.update slot fun entry =>
        { entry with held := entry.held - 1 }
      if entry.held = 1 then dropped.markPending slot else dropped := by
  unfold removeHold at removed
  cases item with
  | scalar atom =>
    simp only [Value.ref?_scalar] at removed
    split at removed <;> cases removed
    exact .inl ⟨atom, rfl, rfl⟩
  | shared ref =>
    simp only [Value.ref?_shared] at removed
    split at removed
    next => cases removed
    next slot entry known =>
      split at removed
      · cases removed
      · split at removed <;> cases removed
        exact .inr ⟨ref, slot, entry, rfl, known, rfl⟩

theorem changes_removeHold {item : Value} {next : Ledger} (valid : ledger.Valid)
    (removed : ledger.removeHold item = .ok next) : Changes ledger next := by
  have lowered : Changes ledger { ledger with total := ledger.total - 1 } := .single (.total _)
  obtain ⟨_, _, rfl⟩ | ⟨_, slot, entry, _, known, rfl⟩ := removeHold_ok removed
  · exact lowered
  · have dropped : Changes ledger _ := lowered.tail (.setHeld valid.withTotal slot (·.held - 1))
    have occupied := dropped.occupied (valid.occupied (find?_eq_some.mp known).1)
    simp only
    split
    · exact dropped.tail (.mark occupied)
    · exact dropped

theorem changes_register {item : Value} (valid : ledger.Valid) :
    Changes ledger (ledger.register item) := by
  unfold register
  cases item with
  | scalar atom => exact .refl
  | shared ref =>
    have tracked : Changes ledger (ledger.track ref).1 := changes_track ledger ref
    exact tracked.tail (.mark ((valid.changes tracked).occupied (slot?_track ledger ref)))

theorem link_ok {item : Value} {next : Ledger} (linked : ledger.link item owner = .ok next) :
    (∃ atom, item = .scalar atom ∧ next = { ledger with total := ledger.total + 1 }) ∨
    ∃ ref, item = .shared ref ∧ next =
      { (ledger.track ref).1.update (ledger.track ref).2 fun entry => { entry with
          owners := entry.owners.insert owner
            ((ledger.track ref).1.edgesAt (ledger.track ref).2 owner + 1) } with
        total := ledger.total + 1 } := by
  obtain ⟨total, sum, linked⟩ := ok_of_bind linked
  obtain ⟨rfl, _⟩ := addCount_eq_ok_iff.mp sum
  cases item with
  | scalar atom => exact .inl ⟨atom, rfl, (Except.ok.inj linked).symm⟩
  | shared ref =>
    simp only [Value.ref?_shared, track_withTotal] at linked
    obtain ⟨edges, counted, linked⟩ := ok_of_bind linked
    obtain ⟨rfl, _⟩ := addCount_eq_ok_iff.mp counted
    exact .inr ⟨ref, rfl, (Except.ok.inj linked).symm⟩

theorem Change.withEdges (valid : ledger.Valid) (slot : Slot) (edges : Nat)
    (occupied : ledger.entries[owner]?.isSome) :
    Change ledger (ledger.update slot fun entry =>
      { entry with owners := entry.owners.insert owner (edges + 1) }) := by
  refine .update (fun _ => rfl) fun entry found other count recorded => ?_
  rw [getElem?_insert_key] at recorded
  split at recorded
  next same =>
    cases recorded
    exact ⟨Nat.succ_pos edges, .inr (same ▸ occupied)⟩
  next =>
    exact ⟨valid.edges_pos slot entry other count found recorded, .inl (by rw [recorded]; rfl)⟩

theorem changes_link {item : Value} {next : Ledger} (valid : ledger.Valid)
    (occupied : ledger.entries[owner]?.isSome) (linked : ledger.link item owner = .ok next) :
    Changes ledger next := by
  obtain ⟨_, _, rfl⟩ | ⟨ref, _, rfl⟩ := link_ok linked
  · exact .single (.total _)
  · have tracked : Changes ledger (ledger.track ref).1 := changes_track ledger ref
    have recorded := tracked.tail (.withEdges (valid.changes tracked) (ledger.track ref).2
      ((ledger.track ref).1.edgesAt (ledger.track ref).2 owner) (tracked.occupied occupied))
    exact recorded.tail (.total _)

theorem addEdge_ok {item parent : Value} {next : Ledger} (added : ledger.addEdge item parent = .ok next) :
    ∃ id, parent = .shared (.container id) ∧
      (ledger.trackOwner (.container id)).1.link item (ledger.trackOwner (.container id)).2 = .ok next := by
  unfold addEdge at added
  match parent with
  | .scalar _ | .shared (.buffer _) => cases added
  | .shared (.container id) =>
    simp only [Value.container?] at added
    exact ⟨id, rfl, ok_of_mapError added⟩

theorem changes_addEdge {item parent : Value} {next : Ledger} (valid : ledger.Valid)
    (added : ledger.addEdge item parent = .ok next) : Changes ledger next := by
  obtain ⟨id, _, linked⟩ := addEdge_ok added
  have tracked : Changes ledger (ledger.trackOwner (.container id)).1 := changes_trackOwner ledger _
  have occupied := (valid.changes tracked).occupied (slot?_trackOwner ledger (.container id))
  exact tracked.trans (changes_link (valid.changes tracked) occupied linked)

theorem owners_withoutEdge {other : Slot} :
    (Entry.withoutEdge entry owner).owners[other]? =
      if owner = other then
        match entry.owners[owner]? with
        | some (edges + 2) => some (edges + 1)
        | _ => none
      else entry.owners[other]? := by
  unfold Entry.withoutEdge
  -- None, the two counts of which no edge is left, and the others.
  rcases entry.owners[owner]? with _ | _ | _ | edges
  · exact getElem?_erase_key
  · exact getElem?_erase_key
  · exact getElem?_erase_key
  · exact getElem?_insert_key

theorem Change.withoutEdge (valid : ledger.Valid) (slot owner : Slot) :
    Change ledger (ledger.update slot (Entry.withoutEdge · owner)) := by
  refine .update (fun entry => ?_) fun entry found other count recorded => ?_
  · unfold Entry.withoutEdge
    split <;> rfl
  · rw [owners_withoutEdge] at recorded
    split at recorded
    next same =>
      split at recorded
      next edges known =>
        cases recorded
        exact ⟨Nat.succ_pos edges, .inl (by rw [← same, known]; rfl)⟩
      next => cases recorded
    next =>
      exact ⟨valid.edges_pos slot entry other count found recorded, .inl (by rw [recorded]; rfl)⟩

theorem removeEdge_ok {item parent : Value} {next : Ledger}
    (removed : ledger.removeEdge item parent = .ok next) :
    (∃ atom, item = .scalar atom ∧ next = { ledger with total := ledger.total - 1 }) ∨
    ∃ ref id owner slot entry, item = .shared ref ∧ parent = .shared (.container id) ∧
      ledger.slot? id = some owner ∧ ledger.find? ref.id = some (slot, entry) ∧
      entry.owners[owner]?.isSome ∧ next =
        let dropped := { ledger with total := ledger.total - 1 }.update slot (Entry.withoutEdge · owner)
        if entry.held = 0 then dropped.markPending slot else dropped := by
  unfold removeEdge at removed
  match parent with
  | .scalar _ | .shared (.buffer _) => cases removed
  | .shared (.container id) =>
    cases item with
    | scalar atom =>
      simp only [Value.container?, Value.ref?_scalar] at removed
      split at removed
      · cases removed
      · split at removed <;> cases removed
        exact .inl ⟨atom, rfl, rfl⟩
    | shared ref =>
      simp only [Value.container?, Value.ref?_shared] at removed
      split at removed
      next owner slot entry known found =>
        split at removed
        next => cases removed
        next recorded =>
          split at removed <;> cases removed
          rw [Bool.not_eq_true, Option.isNone_eq_false_iff] at recorded
          exact .inr ⟨ref, id, owner, slot, entry, rfl, rfl, known, found, recorded, rfl⟩
      next => cases removed

theorem changes_removeEdge {item parent : Value} {next : Ledger} (valid : ledger.Valid)
    (removed : ledger.removeEdge item parent = .ok next) : Changes ledger next := by
  have lowered : Changes ledger { ledger with total := ledger.total - 1 } := .single (.total _)
  obtain ⟨_, _, rfl⟩ | ⟨_, _, owner, slot, entry, _, _, _, found, _, rfl⟩ := removeEdge_ok removed
  · exact lowered
  · have dropped : Changes ledger _ := lowered.tail (.withoutEdge valid.withTotal slot owner)
    have occupied := dropped.occupied (valid.occupied (find?_eq_some.mp found).1)
    simp only
    split
    · exact dropped.tail (.mark occupied)
    · exact dropped

end Ledger

end Reclaim
