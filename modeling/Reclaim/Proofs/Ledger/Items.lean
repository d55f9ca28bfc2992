import Reclaim.Proofs.Ledger.Valid

/-! Which values are tracked. The counting operations make tracked what they are given and nothing else. -/

set_option autoImplicit false

namespace Reclaim

namespace Ledger

variable {ledger next : Ledger} {known : Ref → Prop} {ref : Ref} {item owner : Value}

def Within (ledger : Ledger) (known : Ref → Prop) : Prop :=
  ∀ (slot : Slot) (entry : Entry), ledger.entries[slot]? = some entry → known entry.item

theorem Within.insert (within : ledger.Within known) (here : known ref) :
    (ledger.insert ref).Within known := by
  intro slot entry found
  rw [getElem?_insert] at found
  split at found
  · cases found
    exact here
  · exact within slot entry found

theorem Within.update {slot : Slot} {change : Entry → Entry} (within : ledger.Within known)
    (same : ∀ entry, (change entry).item = entry.item) : (ledger.update slot change).Within known := by
  intro other entry found
  rw [getElem?_update] at found
  split at found
  · obtain ⟨before, present, rfl⟩ := Option.map_eq_some_iff.mp found
    exact same before ▸ within other before present
  · exact within other entry found

theorem Within.track (within : ledger.Within known) (here : known ref) :
    (ledger.track ref).1.Within known := by
  unfold Ledger.track
  split
  · exact within
  · exact within.insert here

theorem Within.trackOwner (within : ledger.Within known) (here : known ref) :
    (ledger.trackOwner ref).1.Within known := by
  unfold Ledger.trackOwner
  split
  · exact within
  · exact within.insert here

theorem Within.register (within : ledger.Within known) (here : ∀ ref, item = .shared ref → known ref) :
    (ledger.register item).Within known := by
  cases item with
  | scalar atom => exact within
  | shared ref => exact within.track (here ref rfl)

theorem Within.addHolds {count : Nat} (within : ledger.Within known)
    (here : ∀ ref, item = .shared ref → known ref) (added : ledger.addHolds item count = .ok next) :
    next.Within known := by
  obtain ⟨_, _, rfl⟩ | ⟨ref, held, rfl, rfl⟩ := addHolds_ok added
  · exact within
  · exact (within.track (here ref rfl)).update fun _ => rfl

theorem Within.removeHold (within : ledger.Within known) (removed : ledger.removeHold item = .ok next) :
    next.Within known := by
  obtain ⟨_, _, rfl⟩ | ⟨_, slot, entry, _, _, rfl⟩ := removeHold_ok removed
  · exact within
  · simp only
    split <;> exact Within.update within fun _ => rfl

theorem Within.addEdge (within : ledger.Within known) (here : ∀ ref, item = .shared ref → known ref)
    (there : ∀ ref, owner = .shared ref → known ref) (added : ledger.addEdge item owner = .ok next) :
    next.Within known := by
  obtain ⟨id, rfl, linked⟩ := addEdge_ok added
  have owned := within.trackOwner (there _ rfl)
  obtain ⟨_, _, rfl⟩ | ⟨ref, rfl, rfl⟩ := link_ok linked
  · exact owned
  · exact (owned.track (here ref rfl)).update fun _ => rfl

theorem Within.removeEdge (within : ledger.Within known) (removed : ledger.removeEdge item owner = .ok next) :
    next.Within known := by
  obtain ⟨_, _, rfl⟩ | ⟨_, _, place, slot, entry, _, _, _, _, _, rfl⟩ := removeEdge_ok removed
  · exact within
  · have same (entry : Entry) : (Entry.withoutEdge entry place).item = entry.item := by
      unfold Entry.withoutEdge
      split <;> rfl
    simp only
    split <;> exact Within.update within same

end Ledger

end Reclaim
