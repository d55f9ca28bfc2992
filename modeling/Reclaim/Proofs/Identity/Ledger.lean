import Reclaim.Proofs.Identity.Renaming
import Reclaim.Proofs.Ledger.Items

/-! Ledgers under other identities. The same values are in the same slots with the same counts, and the
counting operations keep this up and fail alike. -/

set_option autoImplicit false

namespace Reclaim

variable {move : Ident → Ident} {known : Ref → Prop}

def Entry.rename (move : Ident → Ident) (entry : Entry) : Entry :=
  { entry with item := entry.item.rename move }

namespace Ledger

variable {ledger other next : Ledger} {ref : Ref} {item owner : Value} {slot place : Slot} {count : Nat}

structure Copies (move : Ident → Ident) (ledger other : Ledger) : Prop where
  entries : other.entries = ledger.entries.map fun _ entry => entry.rename move
  bound : other.bound = ledger.bound
  free : other.free = ledger.free
  pending : other.pending = ledger.pending
  total : other.total = ledger.total

namespace Copies

theorem getElem? (copies : ledger.Copies move other) (slot : Slot) :
    other.entries[slot]? = ledger.entries[slot]?.map (·.rename move) := by
  rw [copies.entries, Std.ExtTreeMap.getElem?_map]

theorem heldAt (copies : ledger.Copies move other) (slot : Slot) :
    other.heldAt slot = ledger.heldAt slot := by
  rw [Ledger.heldAt, copies.getElem?, Option.map_map]
  rfl

theorem edgesAt (copies : ledger.Copies move other) (slot place : Slot) :
    other.edgesAt slot place = ledger.edgesAt slot place := by
  rw [Ledger.edgesAt, copies.getElem?, Option.bind_map]
  rfl

theorem trackedCount (copies : ledger.Copies move other) : other.trackedCount = ledger.trackedCount := by
  rw [Ledger.trackedCount, copies.entries, Std.ExtTreeMap.size_map]
  rfl

theorem nextSlot (copies : ledger.Copies move other) : other.nextSlot = ledger.nextSlot := by
  rw [Ledger.nextSlot, copies.free, copies.bound]
  rfl

theorem withTotal (copies : ledger.Copies move other) (total : Nat) :
    Copies move { ledger with total } { other with total } := { copies with total := rfl }

theorem withPending (copies : ledger.Copies move other) (pending : NodeSet) :
    Copies move { ledger with pending } { other with pending } := { copies with pending := rfl }

theorem markPending (copies : ledger.Copies move other) (slot : Slot) :
    Copies move (ledger.markPending slot) (other.markPending slot) :=
  { copies with pending := congrArg (·.insert slot) copies.pending }

theorem update (copies : ledger.Copies move other) (slot : Slot) (change : Entry → Entry)
    (commutes : ∀ entry, change (entry.rename move) = (change entry).rename move) :
    Copies move (ledger.update slot change) (other.update slot change) :=
  { copies with
    entries := by
      apply Std.ExtTreeMap.ext_getElem?
      intro place
      rw [Std.ExtTreeMap.getElem?_map, getElem?_update, getElem?_update, copies.getElem?]
      split
      · rw [Option.map_map, Option.map_map]
        exact Option.map_congr fun entry _ => commutes entry
      · rfl }

theorem insert (copies : ledger.Copies move other) (ref : Ref) :
    Copies move (ledger.insert ref) (other.insert (ref.rename move)) where
  entries := by
    apply Std.ExtTreeMap.ext_getElem?
    intro place
    rw [Std.ExtTreeMap.getElem?_map, getElem?_insert, getElem?_insert, copies.nextSlot, copies.getElem?]
    split <;> rfl
  bound := by simp only [Ledger.insert, copies.free, copies.bound]
  free := congrArg List.tail copies.free
  pending := copies.pending
  total := copies.total

end Copies

structure Renames (move : Ident → Ident) (known : Ref → Prop) (ledger other : Ledger) : Prop
    extends ledger.Copies move other where
  within : ledger.Within known
  valid : ledger.Valid
  valid' : other.Valid

namespace Renames

variable (renames : ledger.Renames move known other) (apart : Apart move known)

include renames apart

theorem slot?_eq (here : known ref) : other.slot? (move ref.id) = ledger.slot? ref.id := by
  apply Option.ext
  intro slot
  rw [renames.valid.index_iff, renames.valid'.index_iff]
  constructor
  · rintro ⟨_, found, same⟩
    rw [renames.getElem?] at found
    obtain ⟨entry, present, rfl⟩ := Option.map_eq_some_iff.mp found
    rw [Entry.rename, Ref.id_rename] at same
    -- What is in the slot is known too, so it has the identity itself and not only its other one.
    exact ⟨entry, present, apart _ _ (renames.within slot entry present) here same⟩
  · rintro ⟨entry, found, same⟩
    exact ⟨entry.rename move, by rw [renames.getElem?, found]; rfl,
      (Ref.id_rename _).trans (congrArg move same)⟩

theorem slotOf?_eq (among : item.Among known) : other.slotOf? (item.rename move) = ledger.slotOf? item := by
  cases item with
  | scalar atom => rfl
  | shared ref => exact (congrArg other.slot? (Ref.id_rename ref)).trans (renames.slot?_eq apart among)

theorem isTracked_eq (among : item.Among known) :
    other.isTracked (item.rename move) = ledger.isTracked item :=
  congrArg Option.isSome (renames.slotOf?_eq apart among)

theorem find?_eq (here : known ref) : other.find? (move ref.id) =
    (ledger.find? ref.id).map fun (slot, entry) => (slot, entry.rename move) := by
  rw [find?, find?, renames.slot?_eq apart here]
  cases ledger.slot? ref.id with
  | none => rfl
  | some slot =>
    simp only [Option.bind_some, renames.getElem?, Option.map_map]
    rfl

theorem track (here : known ref) : (ledger.track ref).1.Copies move (other.track (ref.rename move)).1 ∧
    (other.track (ref.rename move)).2 = (ledger.track ref).2 := by
  unfold Ledger.track
  rw [Ref.id_rename, renames.slot?_eq apart here]
  cases ledger.slot? ref.id with
  | some slot => exact ⟨renames.toCopies, rfl⟩
  | none => exact ⟨renames.insert ref, renames.nextSlot⟩

theorem trackOwner (here : known ref) :
    (ledger.trackOwner ref).1.Renames move known (other.trackOwner (ref.rename move)).1 ∧
      (other.trackOwner (ref.rename move)).2 = (ledger.trackOwner ref).2 := by
  have copies : (ledger.trackOwner ref).1.Copies move (other.trackOwner (ref.rename move)).1 ∧
      (other.trackOwner (ref.rename move)).2 = (ledger.trackOwner ref).2 := by
    unfold Ledger.trackOwner
    rw [Ref.id_rename, renames.slot?_eq apart here]
    cases ledger.slot? ref.id with
    | some slot => exact ⟨renames.toCopies, rfl⟩
    | none => exact ⟨renames.nextSlot ▸ (renames.insert ref).markPending _, renames.nextSlot⟩
  exact ⟨{ copies.1 with
    within := renames.within.trackOwner here
    valid := renames.valid.changes (changes_trackOwner ledger ref)
    valid' := renames.valid'.changes (changes_trackOwner other _) }, copies.2⟩

theorem register (among : item.Among known) :
    (ledger.register item).Renames move known (other.register (item.rename move)) where
  toCopies := by
    cases item with
    | scalar atom => exact renames.toCopies
    | shared ref =>
      obtain ⟨copies, place⟩ := renames.track apart among
      show ((ledger.track ref).1.markPending (ledger.track ref).2).Copies move
        ((other.track (ref.rename move)).1.markPending (other.track (ref.rename move)).2)
      exact place ▸ copies.markPending _
  within := renames.within.register (Value.among_iff.mp among)
  valid := renames.valid.changes (changes_register renames.valid)
  valid' := renames.valid'.changes (changes_register renames.valid')

theorem addHolds (among : item.Among known) : Echoes id (Renames move known)
    (ledger.addHolds item count) (other.addHolds (item.rename move) count) := by
  suffices echoes : Echoes id (Copies move) (ledger.addHolds item count)
      (other.addHolds (item.rename move) count) from
    echoes.imp fun next next' added added' copies => { copies with
      within := renames.within.addHolds (Value.among_iff.mp among) added
      valid := renames.valid.changes (changes_addHolds renames.valid added)
      valid' := renames.valid'.changes (changes_addHolds renames.valid' added') }
  unfold Ledger.addHolds
  rw [renames.total]
  refine Echoes.same.bind ?_
  rintro total _ rfl
  cases item with
  | scalar atom => exact renames.withTotal total
  | shared ref =>
    obtain ⟨copies, place⟩ := renames.track apart among
    simp only [Value.rename, Value.ref?_shared, track_withTotal, place]
    rw [show heldAt { (other.track (ref.rename move)).1 with total } (ledger.track ref).2 =
      heldAt { (ledger.track ref).1 with total } (ledger.track ref).2 from (copies.withTotal total).heldAt _]
    refine Echoes.same.bind ?_
    rintro held _ rfl
    have raised := (copies.withTotal total).update (ledger.track ref).2
      (fun entry => { entry with held }) fun _ => rfl
    exact { raised with pending := congrArg (·.erase (ledger.track ref).2) raised.pending }

theorem removeHold (among : item.Among known) : Echoes (LedgerError.rename move) (Renames move known)
    (ledger.removeHold item) (other.removeHold (item.rename move)) := by
  suffices echoes : Echoes (LedgerError.rename move) (Copies move) (ledger.removeHold item)
      (other.removeHold (item.rename move)) from
    echoes.imp fun next next' removed removed' copies => { copies with
      within := renames.within.removeHold removed
      valid := renames.valid.changes (changes_removeHold renames.valid removed)
      valid' := renames.valid'.changes (changes_removeHold renames.valid' removed') }
  unfold Ledger.removeHold
  rw [renames.total]
  cases item with
  | scalar atom =>
    simp only [Value.rename, Value.ref?_scalar]
    split
    · exact rfl
    · exact renames.withTotal _
  | shared ref =>
    simp only [Value.rename, Value.ref?_shared, Ref.id_rename, renames.find?_eq apart among]
    cases ledger.find? ref.id with
    | none => exact rfl
    | some found =>
      obtain ⟨slot, entry⟩ := found
      have held : (entry.rename move).held = entry.held := rfl
      simp only [Option.map_some, held]
      have dropped := (renames.withTotal (ledger.total - 1)).update slot
        (fun entry => { entry with held := entry.held - 1 }) fun _ => rfl
      by_cases unheld : entry.held = 0
      · rw [if_pos unheld, if_pos unheld]
        exact rfl
      rw [if_neg unheld, if_neg unheld]
      by_cases empty : ledger.total = 0
      · rw [if_pos empty, if_pos empty]
        exact rfl
      rw [if_neg empty, if_neg empty]
      by_cases last : entry.held = 1
      · rw [if_pos last, if_pos last]
        exact dropped.markPending slot
      · rw [if_neg last, if_neg last]
        exact dropped

theorem link (place : Slot) (among : item.Among known) : Echoes id (Copies move)
    (ledger.link item place) (other.link (item.rename move) place) := by
  unfold Ledger.link
  rw [renames.total]
  refine Echoes.same.bind ?_
  rintro total _ rfl
  cases item with
  | scalar atom => exact renames.withTotal total
  | shared ref =>
    obtain ⟨copies, slot⟩ := renames.track apart among
    have counted := (copies.withTotal total).edgesAt (ledger.track ref).2 place
    simp only [Value.rename, Value.ref?_shared, track_withTotal, slot, counted]
    refine Echoes.same.bind ?_
    rintro edges _ rfl
    exact (copies.withTotal total).update _ _ fun _ => rfl

theorem addEdge {id : Ident} (among : item.Among known) (here : known (.container id)) :
    Echoes (Failure.rename move) (Renames move known) (ledger.addEdge item (.shared (.container id)))
      (other.addEdge (item.rename move) (.shared (.container (move id)))) := by
  suffices echoes : Echoes (Failure.rename move) (Copies move) (ledger.addEdge item (.shared (.container id)))
      (other.addEdge (item.rename move) (.shared (.container (move id)))) from
    echoes.imp fun next next' added added' copies => { copies with
      within := renames.within.addEdge (Value.among_iff.mp among) (by rintro _ ⟨⟩; exact here) added
      valid := renames.valid.changes (changes_addEdge renames.valid added)
      valid' := renames.valid'.changes (changes_addEdge renames.valid' added') }
  obtain ⟨tracked, slot⟩ := renames.trackOwner apart here
  have linked := tracked.link apart (ledger.trackOwner (.container id)).2 among
  simp only [Ledger.addEdge, Value.container?]
  have renamed : Ref.container (move id) = Ref.rename move (.container id) := rfl
  rw [renamed, slot]
  exact linked.mapError fun _ => rfl

theorem removeEdge {id : Ident} (among : item.Among known) (here : known (.container id)) :
    Echoes (LedgerError.rename move) (Renames move known)
      (ledger.removeEdge item (.shared (.container id)))
      (other.removeEdge (item.rename move) (.shared (.container (move id)))) := by
  suffices echoes : Echoes (LedgerError.rename move) (Copies move)
      (ledger.removeEdge item (.shared (.container id)))
      (other.removeEdge (item.rename move) (.shared (.container (move id)))) from
    echoes.imp fun next next' removed removed' copies => { copies with
      within := renames.within.removeEdge removed
      valid := renames.valid.changes (changes_removeEdge renames.valid removed)
      valid' := renames.valid'.changes (changes_removeEdge renames.valid' removed') }
  have owner : other.slot? (move id) = ledger.slot? id := renames.slot?_eq apart here
  unfold Ledger.removeEdge
  simp only [Value.container?, owner, renames.total]
  cases item with
  | scalar atom =>
    simp only [Value.rename, Value.ref?_scalar]
    split
    · exact rfl
    split
    · exact rfl
    · exact renames.withTotal _
  | shared ref =>
    simp only [Value.rename, Value.ref?_shared, Ref.id_rename, renames.find?_eq apart among]
    cases ledger.slot? id with
    | none => exact rfl
    | some ownerSlot =>
      cases ledger.find? ref.id with
      | none => exact rfl
      | some found =>
        obtain ⟨slot, entry⟩ := found
        have same : (entry.rename move).owners = entry.owners ∧ (entry.rename move).held = entry.held :=
          ⟨rfl, rfl⟩
        simp only [Option.map_some, same]
        have dropped := (renames.withTotal (ledger.total - 1)).update slot
          (Entry.withoutEdge · ownerSlot) fun entry => by
            unfold Entry.withoutEdge
            rw [show (entry.rename move).owners = entry.owners from rfl]
            split <;> rfl
        by_cases missing : entry.owners[ownerSlot]?.isNone = true
        · rw [if_pos missing, if_pos missing]
          exact rfl
        rw [if_neg missing, if_neg missing]
        by_cases empty : ledger.total = 0
        · rw [if_pos empty, if_pos empty]
          exact rfl
        rw [if_neg empty, if_neg empty]
        by_cases unheld : entry.held = 0
        · rw [if_pos unheld, if_pos unheld]
          exact dropped.markPending slot
        · rw [if_neg unheld, if_neg unheld]
          exact dropped

end Renames

end Ledger

end Reclaim
