import Mathlib.Data.List.Count
import Reclaim.Proofs.Heap.Release
import Reclaim.Proofs.Ledger.Effects
import Reclaim.Proofs.Ledger.Posting

/-! The balance between the edges of a ledger and the contents of a heap. A host that changes a
container owes the counter a call for each child gained and for each child lost. Up to the calls
that are owed, the edges to a value from a container are the places in which it holds the value. -/

set_option autoImplicit false

namespace Reclaim

/-- A call that a change of contents makes necessary. -/
inductive Due where
  | gain (item owner : Value)
  | loss (item owner : Value)
  deriving DecidableEq

namespace Due

def values : Due → List Value
  | .gain item owner | .loss item owner => [item, owner]

section

variable {children : List Value} {child owner container : Value}

theorem count_map {due : Value → Value → Due}
    (injective : ∀ item owner item' owner', due item owner = due item' owner' → item = item' ∧ owner = owner') :
    (children.map (due · container)).count (due child owner) =
      if owner = container then children.count child else 0 := by
  by_cases here : owner = container
  · rw [if_pos here, here]
    exact List.count_map_of_injective children (due · container)
      (fun first second same => (injective _ _ _ _ same).1) child
  · rw [if_neg here, List.count_eq_zero, List.mem_map]
    rintro ⟨value, _, same⟩
    exact here (injective _ _ _ _ same).2.symm

theorem count_map_gain : (children.map (Due.gain · container)).count (.gain child owner) =
    if owner = container then children.count child else 0 :=
  count_map fun _ _ _ _ => Due.gain.inj

theorem count_map_loss : (children.map (Due.loss · container)).count (.loss child owner) =
    if owner = container then children.count child else 0 :=
  count_map fun _ _ _ _ => Due.loss.inj

theorem count_gain_map_loss : (children.map (Due.loss · container)).count (.gain child owner) = 0 := by
  simp [List.count_eq_zero]

theorem count_loss_map_gain : (children.map (Due.gain · container)).count (.loss child owner) = 0 := by
  simp [List.count_eq_zero]

end

end Due

namespace Ledger

variable {ledger next : Ledger} {heap : Heap} {created : Nat} {owed : List Due} {ref : Ref}
  {item owner : Value}

theorem mem_tracked : ref ∈ ledger.tracked ↔
    ∃ (slot : Slot) (entry : Entry), ledger.entries[slot]? = some entry ∧ entry.item = ref := by
  simp [tracked, Std.ExtTreeMap.mem_toList_iff_getElem?_eq_some]

theorem tracked_of_entry {slot : Slot} {entry : Entry} (found : ledger.entries[slot]? = some entry) :
    entry.item ∈ ledger.tracked :=
  mem_tracked.mpr ⟨slot, entry, found, rfl⟩

/-- The ledger is an arena for existing values, whatever edges are recorded on them. -/
structure Housed (ledger : Ledger) (heap : Heap) (created : Nat) : Prop where
  formed : heap.Formed created
  valid : ledger.Valid
  present : ∀ ref ∈ ledger.tracked, heap.holds (.shared ref)

theorem Housed.slotOf?_iff {slot : Slot} {entry : Entry} {value : Value} (housed : ledger.Housed heap created)
    (held : heap.holds value) (found : ledger.entries[slot]? = some entry) :
    ledger.slotOf? value = some slot ↔ value = .shared entry.item := by
  have present := housed.present entry.item (tracked_of_entry found)
  have known := housed.valid.slot_of_entry found
  constructor
  · intro located
    obtain ⟨id, named, located⟩ := Option.bind_eq_some_iff.mp located
    have same : id = entry.item.id := housed.valid.slot?_inj located known
    exact (housed.formed.id?_iff held present).mp (same ▸ named)
  · rintro rfl
    exact known

theorem Housed.cleared (housed : ledger.Housed heap created) : Housed { ledger with pending := ∅ } heap created :=
  ⟨housed.formed, housed.valid.unmark fun _ member => (nomatch member), housed.present⟩

/-- The ledger is an arena for existing values, and its edges agree with the contents of the heap
up to what is owed. -/
structure Sound (ledger : Ledger) (heap : Heap) (created : Nat) (owed : List Due) : Prop where
  formed : heap.Formed created
  valid : ledger.Valid
  closed : ledger.Closed
  present : ∀ ref ∈ ledger.tracked, heap.holds (.shared ref)
  owed_present : ∀ due ∈ owed, ∀ value ∈ due.values, heap.holds value
  balanced : ∀ item owner : Ref, heap.holds (.shared item) → heap.holds (.shared owner) →
    ledger.edges (.shared item) (.shared owner) + owed.count (.gain (.shared item) (.shared owner)) =
      (heap.children owner).count (.shared item) + owed.count (.loss (.shared item) (.shared owner))

theorem Valid.mem_tracked_iff (valid : ledger.Valid) : ref ∈ ledger.tracked ↔
    ∃ account, ledger.book.account ref.id = some account ∧ account.item = ref := by
  rw [mem_tracked]
  constructor
  · rintro ⟨slot, entry, found, rfl⟩
    exact ⟨_, book_account (valid.slot_of_entry found) found, rfl⟩
  · rintro ⟨account, found, same⟩
    cases known : ledger.slot? ref.id with
    | none =>
      rw [book_account_none known] at found
      cases found
    | some slot =>
      obtain ⟨entry, occupied, _⟩ := valid.entry_of_slot? known
      rw [book_account known occupied] at found
      cases found
      exact ⟨slot, entry, occupied, same⟩

theorem Valid.edges_eq (valid : ledger.Valid) (item owner : Ref) :
    ledger.edges (.shared item) (.shared owner) = ledger.book.edges item.id owner.id := by
  have itemSlot : ledger.slotOf? (.shared item) = ledger.slot? item.id := rfl
  have ownerSlot : ledger.slotOf? (.shared owner) = ledger.slot? owner.id := rfl
  unfold edges
  rw [itemSlot, ownerSlot]
  cases known : ledger.slot? item.id with
  | none => simp [Book.edges, book_account_none known]
  | some slot =>
    obtain ⟨entry, found, _⟩ := valid.entry_of_slot? known
    rw [Book.edges, book_account known found]
    simp only [Option.map_some, Option.getD_some, toAccount]
    cases ledger.slot? owner.id with
    | none => rfl
    | some ownerSlot => simp only [edgesAt, found, Option.bind_some]

namespace Sound

theorem housed (sound : ledger.Sound heap created owed) : ledger.Housed heap created :=
  ⟨sound.formed, sound.valid, sound.present⟩

theorem names (sound : ledger.Sound heap created owed) :
    ledger.book.Names (fun ref => heap.holds (.shared ref)) := by
  intro id account found
  cases known : ledger.slot? id with
  | none =>
    rw [book_account_none known] at found
    cases found
  | some slot =>
    obtain ⟨entry, occupied, _⟩ := sound.valid.entry_of_slot? known
    rw [book_account known occupied] at found
    cases found
    exact sound.present entry.item (tracked_of_entry occupied)

/-- What the counting operations have in common: they move edges as far as they pay for it. -/
theorem count {paid : List Due} (sound : ledger.Sound heap created owed)
    (changes : Changes ledger next) (fewer : ∀ due ∈ paid, due ∈ owed)
    (names : next.book.Names (fun ref => heap.holds (.shared ref)))
    (edges : ∀ item owner : Ref, heap.holds (.shared item) → heap.holds (.shared owner) →
      next.book.edges item.id owner.id + paid.count (.gain (.shared item) (.shared owner)) +
          owed.count (.loss (.shared item) (.shared owner)) =
        ledger.book.edges item.id owner.id + owed.count (.gain (.shared item) (.shared owner)) +
          paid.count (.loss (.shared item) (.shared owner))) :
    next.Sound heap created paid where
  formed := sound.formed
  valid := sound.valid.changes changes
  closed := sound.closed.changes changes
  present ref tracked := by
    obtain ⟨account, found, same⟩ := (sound.valid.changes changes).mem_tracked_iff.mp tracked
    exact same ▸ names ref.id account found
  owed_present due member := sound.owed_present due (fewer due member)
  balanced item owner itemHeld ownerHeld := by
    have before := sound.balanced item owner itemHeld ownerHeld
    have change := edges item owner itemHeld ownerHeld
    rw [sound.valid.edges_eq] at before
    rw [(sound.valid.changes changes).edges_eq]
    omega

variable {amount : Nat}

theorem addHolds (sound : ledger.Sound heap created owed) (held : heap.holds item)
    (added : ledger.addHolds item amount = .ok next) : next.Sound heap created owed := by
  have posted : ledger.book.addHolds item amount = .ok next.book := by
    rw [← sound.valid.book_addHolds sound.closed, added]
    rfl
  refine sound.count (changes_addHolds sound.valid added) (fun _ member => member)
    (sound.names.addHolds posted fun ref same => same ▸ held) fun child owner _ _ => ?_
  rw [Book.edges_addHolds posted]

theorem removeHold (sound : ledger.Sound heap created owed)
    (removed : ledger.removeHold item = .ok next) : next.Sound heap created owed := by
  have posted : ledger.book.removeHold item = .ok next.book := by
    rw [← sound.valid.book_removeHold, removed]
    rfl
  refine sound.count (changes_removeHold sound.valid removed) (fun _ member => member)
    (sound.names.removeHold posted) fun child owner _ _ => ?_
  rw [Book.edges_removeHold posted]

theorem register (sound : ledger.Sound heap created owed) (held : heap.holds item) :
    (ledger.register item).Sound heap created owed := by
  have posted : (ledger.register item).book = ledger.book.register item :=
    sound.valid.book_register sound.closed
  refine sound.count (changes_register sound.valid) (fun _ member => member) ?_ fun child owner _ _ => ?_
  · rw [posted]
    exact sound.names.register fun ref same => same ▸ held
  · rw [posted, Book.edges_register]

theorem id?_iff (sound : ledger.Sound heap created owed) {value : Value} (held : heap.holds value)
    (present : heap.holds (.shared ref)) : value.id? = some ref.id ↔ value = .shared ref :=
  sound.formed.id?_iff held present

theorem addEdge (sound : ledger.Sound heap created owed) (due : .gain item owner ∈ owed)
    (added : ledger.addEdge item owner = .ok next) :
    next.Sound heap created (owed.erase (.gain item owner)) := by
  have posted : ledger.book.addEdge item owner = .ok next.book := by
    rw [← sound.valid.book_addEdge sound.closed, added]
    rfl
  have itemHeld := sound.owed_present _ due item (by simp [Due.values])
  have ownerHeld := sound.owed_present _ due owner (by simp [Due.values])
  refine sound.count (changes_addEdge sound.valid added) (fun _ => List.mem_of_mem_erase) ?_ ?_
  · exact sound.names.addEdge posted fun ref same =>
      same.elim (fun same => same ▸ itemHeld) (fun same => same ▸ ownerHeld)
  · intro child container childHeld containerHeld
    -- The edge that is added has been owed, so the subtraction of one is exact.
    have owing : 0 < owed.count (.gain item owner) := List.count_pos_iff.mpr due
    simp only [Book.edges_addEdge posted, sound.id?_iff itemHeld childHeld,
      sound.id?_iff ownerHeld containerHeld, List.count_erase]
    by_cases paid : item = .shared child ∧ owner = .shared container
    · obtain ⟨rfl, rfl⟩ := paid
      simp
      omega
    · have apart : (Due.gain item owner == .gain (.shared child) (.shared container)) = false := by
        simpa using paid
      simp [paid, apart]

theorem removeEdge (sound : ledger.Sound heap created owed) (due : .loss item owner ∈ owed)
    (removed : ledger.removeEdge item owner = .ok next) :
    next.Sound heap created (owed.erase (.loss item owner)) := by
  have posted : ledger.book.removeEdge item owner = .ok next.book := by
    rw [← sound.valid.book_removeEdge, removed]
    rfl
  have itemHeld := sound.owed_present _ due item (by simp [Due.values])
  have ownerHeld := sound.owed_present _ due owner (by simp [Due.values])
  refine sound.count (changes_removeEdge sound.valid removed) (fun _ => List.mem_of_mem_erase)
    (sound.names.removeEdge posted) ?_
  intro child container childHeld containerHeld
  have owing : 0 < owed.count (.loss item owner) := List.count_pos_iff.mpr due
  have edges := Book.edges_removeEdge posted child.id container.id
  simp only [sound.id?_iff itemHeld childHeld, sound.id?_iff ownerHeld containerHeld] at edges
  rw [List.count_erase, List.count_erase]
  by_cases paid : item = .shared child ∧ owner = .shared container
  · obtain ⟨rfl, rfl⟩ := paid
    simp at edges ⊢
    omega
  · have apart : (Due.loss item owner == .loss (.shared child) (.shared container)) = false := by
      simpa using paid
    rw [if_neg paid] at edges
    simp [apart]
    omega

/-- A change of a container is balanced by the calls that it makes necessary. -/
theorem trade {id : Ident} {container : Container} {gains losses : List Value}
    (sound : ledger.Sound heap created owed) (held : heap.holds (.shared (.container id)))
    (gained : ∀ value ∈ gains, heap.holds value)
    (trades : (heap.container id).Trades container gains losses) :
    ledger.Sound (heap.setContainer id container) created
      (gains.map (.gain · (.shared (.container id))) ++
        losses.map (.loss · (.shared (.container id))) ++ owed) := by
  have present : ∀ value ∈ losses ++ container.children, heap.holds value := by
    intro value member
    rcases List.mem_append.mp (trades.mem_iff.mp member) with new | old
    · exact gained value new
    · exact sound.formed.children_held (.container id) value old
  have same : ∀ value, (heap.setContainer id container).holds value = heap.holds value := by
    intro value
    rw [Heap.holds_setContainer]
    by_cases here : value = .shared (.container id) <;> simp [here, held]
  refine ⟨sound.formed.setContainer held fun child member => present child (by simp [member]),
    sound.valid, sound.closed, fun ref tracked => (same _).trans (sound.present ref tracked), ?_, ?_⟩
  · intro due member value named
    rw [same]
    simp only [List.mem_append, List.mem_map] at member
    obtain (⟨child, new, rfl⟩ | ⟨child, old, rfl⟩) | before := member
    · obtain rfl | rfl : value = child ∨ value = _ := by simpa [Due.values] using named
      · exact gained _ new
      · exact held
    · obtain rfl | rfl : value = child ∨ value = _ := by simpa [Due.values] using named
      · exact present _ (by simp [old])
      · exact held
    · exact sound.owed_present due before value named
  · intro child owner childHeld ownerHeld
    rw [same] at childHeld ownerHeld
    have before := sound.balanced child owner childHeld ownerHeld
    have exchanged := trades.count_eq (.shared child)
    have contents : heap.children (.container id) = (heap.container id).children := rfl
    -- For this owner the places change by gains and losses, which are what is owed in addition.
    rw [Heap.children_setContainer]
    simp only [List.count_append, Due.count_map_gain, Due.count_map_loss, Due.count_gain_map_loss,
      Due.count_loss_map_gain, Value.shared.injEq] at exchanged ⊢
    by_cases here : owner = .container id
    · rw [here, contents] at before
      simp only [here, if_true]
      omega
    · simp only [here, if_false]
      omega

theorem make {grown : Heap} (sound : ledger.Sound heap created owed) (fresh : ref.id = created)
    (holds : ∀ value, grown.holds value = (decide (value = .shared ref) || heap.holds value))
    (children : ∀ owner, grown.children owner = if owner = ref then [] else heap.children owner) :
    ledger.Sound grown (created + 1) owed := by
  have unknown : ¬heap.holds (.shared ref) := fun held =>
    Nat.ne_of_lt (sound.formed.lt ref held) fresh
  have older : ∀ value, heap.holds value → grown.holds value := fun value held => by
    rw [holds, held, Bool.or_true]
  have untracked : ledger.slotOf? (.shared ref) = none := by
    change ledger.slot? ref.id = none
    cases known : ledger.slot? ref.id with
    | none => rfl
    | some slot =>
      obtain ⟨entry, found, same⟩ := sound.valid.entry_of_slot? known
      have held := sound.present entry.item (tracked_of_entry found)
      exact absurd (same.trans fresh) (Nat.ne_of_lt (sound.formed.lt entry.item held))
  -- Calls are owed for values that exist, so none for this one.
  have unowed : ∀ due ∈ owed, .shared ref ∉ due.values := fun due member named =>
    unknown (sound.owed_present due member _ named)
  have clear : ∀ due : Due, .shared ref ∈ due.values → owed.count due = 0 := fun due named =>
    List.count_eq_zero.mpr fun member => unowed due member named
  refine ⟨sound.formed.make fresh holds fun owner child member => ?_, sound.valid, sound.closed,
    fun ref tracked => older _ (sound.present ref tracked),
    fun due member value named => older _ (sound.owed_present due member value named), ?_⟩
  · rw [children] at member
    split at member
    · cases member
    · exact member
  · intro item owner itemHeld ownerHeld
    rw [children]
    by_cases newOwner : owner = ref
    · have unrecorded : ledger.edges (.shared item) (.shared ref) = 0 := by
        unfold edges
        rw [untracked]
        cases ledger.slotOf? (.shared item) <;> rfl
      rw [if_pos newOwner, newOwner, unrecorded, clear _ (by simp [Due.values]),
        clear _ (by simp [Due.values])]
      rfl
    by_cases newItem : item = ref
    · have unrecorded : ledger.edges (.shared ref) (.shared owner) = 0 := by
        unfold edges
        rw [untracked]
      have uncontained : (heap.children owner).count (.shared ref) = 0 :=
        List.count_eq_zero.mpr fun member => unknown (sound.formed.children_held owner _ member)
      rw [if_neg newOwner, newItem, unrecorded, uncontained, clear _ (by simp [Due.values]),
        clear _ (by simp [Due.values])]
    rw [holds] at itemHeld ownerHeld
    rw [if_neg newOwner]
    exact sound.balanced item owner (by simpa [newItem] using itemHeld)
      (by simpa [newOwner] using ownerHeld)

/-- Balance does not depend on more than what exists and what contains it. -/
theorem congr {other : Heap} (sound : ledger.Sound heap created owed)
    (holds : ∀ value, other.holds value = heap.holds value)
    (children : ∀ owner, other.children owner = heap.children owner) :
    ledger.Sound other created owed where
  formed := sound.formed.congr holds fun owner child member =>
    sound.formed.children_held owner child (children owner ▸ member)
  valid := sound.valid
  closed := sound.closed
  present ref tracked := (holds _).trans (sound.present ref tracked)
  owed_present due member value named := (holds _).trans (sound.owed_present due member value named)
  balanced item owner itemHeld ownerHeld := by
    rw [children]
    exact sound.balanced item owner ((holds _).symm.trans itemHeld) ((holds _).symm.trans ownerHeld)

theorem settled (sound : ledger.Sound heap created owed) :
    Sound { ledger with pending := ∅ } heap created owed :=
  { sound with valid := sound.valid.unmark fun slot member => by simp at member }

theorem tracked_of_slotOf? (sound : ledger.Sound heap created owed) (held : heap.holds (.shared ref))
    {slot : Slot} (located : ledger.slotOf? (.shared ref) = some slot) : ref ∈ ledger.tracked := by
  obtain ⟨entry, found, same⟩ := sound.valid.entry_of_slot? located
  have present := sound.present entry.item (tracked_of_entry found)
  exact mem_tracked.mpr ⟨slot, entry, found, sound.formed.inj entry.item ref present held same⟩

/-- Where nothing is owed, whatever contains a value is tracked, and so is the value. -/
theorem tracked_of_contains {child owner : Ref} (sound : ledger.Sound heap created [])
    (contains : heap.Contains owner child) : owner ∈ ledger.tracked ∧ child ∈ ledger.tracked := by
  have ownerHeld := Heap.holds_of_mem_children contains
  have childHeld := sound.formed.children_held owner (.shared child) contains
  have recorded : 0 < ledger.edges (.shared child) (.shared owner) := by
    have balanced := sound.balanced child owner childHeld ownerHeld
    have places := List.count_pos_iff.mpr contains
    simp only [List.count_nil] at balanced
    omega
  unfold edges at recorded
  cases childSlot : ledger.slotOf? (.shared child) with
  | none => simp [childSlot] at recorded
  | some slot =>
    cases ownerSlot : ledger.slotOf? (.shared owner) with
    | none => simp [childSlot, ownerSlot] at recorded
    | some other =>
      exact ⟨sound.tracked_of_slotOf? ownerHeld ownerSlot, sound.tracked_of_slotOf? childHeld childSlot⟩

section Slots

variable {slot ownerSlot : Slot} {entry ownerEntry : Entry}

/-- Where nothing is owed, the edges between two slots count the places of the contents. -/
theorem edgesAt_eq (sound : ledger.Sound heap created []) (found : ledger.entries[slot]? = some entry)
    (ownerFound : ledger.entries[ownerSlot]? = some ownerEntry) :
    ledger.edgesAt slot ownerSlot = (heap.children ownerEntry.item).count (.shared entry.item) := by
  have balanced := sound.balanced entry.item ownerEntry.item
    (sound.present _ (tracked_of_entry found)) (sound.present _ (tracked_of_entry ownerFound))
  have itemSlot : ledger.slotOf? (.shared entry.item) = some slot := sound.valid.slot_of_entry found
  have owner : ledger.slotOf? (.shared ownerEntry.item) = some ownerSlot :=
    sound.valid.slot_of_entry ownerFound
  unfold edges at balanced
  rw [itemSlot, owner] at balanced
  exact balanced

theorem recorded_iff (sound : ledger.Sound heap created [])
    (found : ledger.entries[slot]? = some entry)
    (ownerFound : ledger.entries[ownerSlot]? = some ownerEntry) :
    entry.owners[ownerSlot]?.isSome ↔ heap.Contains ownerEntry.item entry.item := by
  have edges := sound.edgesAt_eq found ownerFound
  rw [edgesAt, found, Option.bind_some] at edges
  rw [Heap.Contains, ← List.count_pos_iff, ← edges]
  cases recorded : entry.owners[ownerSlot]? with
  | none => simp
  | some count =>
    have positive := sound.valid.edges_pos slot entry ownerSlot count found recorded
    simpa using positive

end Slots

end Sound

theorem sound_empty : Sound {} {} 0 [] where
  formed :=
    { lt := fun ref held => by cases ref <;> simp [Heap.holds] at held
      inj := fun ref other held => by cases ref <;> simp [Heap.holds] at held
      children_held := fun owner child member => by
        cases owner <;> simp [Heap.children, Heap.container] at member }
  valid := valid_empty
  closed slot entry owner edges found := by simp at found
  present ref member := by
    obtain ⟨slot, entry, found, _⟩ := mem_tracked.mp member
    simp at found
  owed_present due member := by cases member
  balanced item owner held := by cases item <;> simp [Heap.holds] at held

end Ledger

end Reclaim
