import Reclaim.Proofs.Arena.Checked
import Reclaim.Proofs.Ledger.Valid

/-! A ledger on an array of slots, and the ledger that it shows. Free slots are empty places of the array,
and the number of tracked values is counted along. -/

set_option autoImplicit false

namespace Reclaim

/-- Each place of the array holds an entry or is free. -/
structure Arena where
  slots : Array (Option Entry) := #[]
  free : List Slot := []
  index : Std.ExtTreeMap Ident Slot compare := ∅
  pending : NodeSet := ∅
  references : Nat := 0
  tracked : Nat := 0

namespace Arena

def occupant? (arena : Arena) (slot : Slot) : Option Entry := arena.slots[slot]?.join

def slotOf? (arena : Arena) (value : Value) : Option Slot := value.id?.bind (arena.index[·]?)

def places (arena : Arena) : List (Slot × Entry) :=
  (List.range arena.slots.size).filterMap fun slot => (arena.occupant? slot).map (slot, ·)

def ledger (arena : Arena) : Ledger where
  entries := .ofList arena.places
  bound := arena.slots.size
  free := arena.free
  index := arena.index
  pending := arena.pending
  total := arena.references

def markPending (arena : Arena) (slot : Slot) : Arena :=
  { arena with pending := arena.pending.insert slot }

def change (arena : Arena) (slot : Slot) (change : Entry → Entry) : Arena :=
  { arena with slots := arena.slots.modify slot (·.map change) }

/-- Put an entry in the latest free slot, or in a new one at the end. -/
def place (arena : Arena) (entry : Entry) : Checked (Arena × Slot) :=
  match arena.free with
  | slot :: free => do
    let slots ← writeAt arena.slots slot (some entry)
    return ({ arena with slots, free }, slot)
  | [] => do
    let slots := arena.slots.push (some entry)
    let slot ← takeOff slots.size 1
    return ({ arena with slots }, slot)

def track (arena : Arena) (ref : Ref) : Checked (Arena × Slot) :=
  match arena.index[ref.id]? with
  | some slot => return (arena, slot)
  | none => do
    let (arena, slot) ← arena.place { item := ref }
    let tracked ← addUp arena.tracked 1
    return ({ arena with index := arena.index.insert ref.id slot, tracked }, slot)

/-- The arena records the ledger, and has counted its values. -/
structure Shows (arena : Arena) (ledger : Ledger) : Prop where
  entries : ∀ slot, arena.occupant? slot = ledger.entries[slot]?
  bound : arena.slots.size = ledger.bound
  free : arena.free = ledger.free
  index : arena.index = ledger.index
  pending : arena.pending = ledger.pending
  references : arena.references = ledger.total
  tracked : arena.tracked = ledger.trackedCount

variable {arena next : Arena} {ledger : Ledger} {slot : Slot} {entry : Entry} {few : Prop}

theorem occupant?_lt (found : arena.occupant? slot = some entry) : slot < arena.slots.size := by
  refine Classical.byContradiction fun large => ?_
  rw [occupant?, Array.getElem?_eq_none (Nat.not_lt.mp large)] at found
  cases found

theorem slots_of_occupant? (found : arena.occupant? slot = some entry) : arena.slots[slot]? = some (some entry) := by
  rwa [occupant?, Option.join_eq_some_iff] at found

theorem mem_places : (slot, entry) ∈ arena.places ↔ arena.occupant? slot = some entry := by
  unfold places
  simp only [List.mem_filterMap, List.mem_range, Option.map_eq_some_iff, Prod.mk.injEq]
  constructor
  · rintro ⟨_, _, _, found, rfl, rfl⟩
    exact found
  · intro found
    exact ⟨slot, occupant?_lt found, entry, found, rfl, rfl⟩

theorem entries_ledger (slot : Slot) : arena.ledger.entries[slot]? = arena.occupant? slot := by
  have distinct : arena.places.Pairwise fun first second => ¬compare first.1 second.1 = .eq := by
    refine List.Pairwise.filterMap _ (fun first second apart place inFirst other inSecond => ?_)
      List.nodup_range
    obtain ⟨_, _, rfl⟩ := Option.map_eq_some_iff.mp inFirst
    obtain ⟨_, _, rfl⟩ := Option.map_eq_some_iff.mp inSecond
    rwa [Std.compare_eq_iff_eq]
  cases found : arena.occupant? slot with
  | some entry =>
    exact Std.ExtTreeMap.getElem?_ofList_of_mem Std.ReflCmp.compare_self distinct (mem_places.mpr found)
  | none =>
    refine Std.ExtTreeMap.getElem?_ofList_of_contains_eq_false ?_
    rw [Bool.eq_false_iff, ne_eq, List.contains_iff_mem, List.mem_map]
    rintro ⟨⟨other, entry⟩, member, rfl⟩
    rw [mem_places.mp member] at found
    cases found

namespace Shows

theorem ledger_eq (shows : arena.Shows ledger) : arena.ledger = ledger := by
  have entries : arena.ledger.entries = ledger.entries := by
    apply Std.ExtTreeMap.ext_getElem?
    intro slot
    rw [entries_ledger, shows.entries]
  obtain ⟨_, bound, free, index, pending, references, _⟩ := shows
  cases ledger
  simp only [Arena.ledger, Ledger.mk.injEq]
  exact ⟨entries, bound, free, index, pending, references⟩

theorem slot? (shows : arena.Shows ledger) (id : Ident) : arena.index[id]? = ledger.slot? id := by
  rw [shows.index]
  rfl

theorem slotOf? (shows : arena.Shows ledger) (value : Value) :
    arena.slotOf? value = ledger.slotOf? value := by
  rw [Arena.slotOf?, shows.index]
  rfl

theorem markPending (shows : arena.Shows ledger) (slot : Slot) :
    (arena.markPending slot).Shows (ledger.markPending slot) :=
  { shows with pending := congrArg (·.insert slot) shows.pending }

theorem withReferences (shows : arena.Shows ledger) (total : Nat) :
    Shows { arena with references := total } { ledger with total } :=
  { shows with references := rfl }

theorem change {first second : Entry → Entry} (shows : arena.Shows ledger)
    (same : ∀ entry, ledger.entries[slot]? = some entry → first entry = second entry) :
    (arena.change slot first).Shows (ledger.update slot second) :=
  { shows with
    entries := fun place => by
      have found := shows.entries place
      rw [Ledger.getElem?_update]
      unfold occupant? at found ⊢
      unfold Arena.change
      rw [Array.getElem?_modify]
      split
      next here =>
        subst here
        rw [← found] at same ⊢
        generalize arena.slots[slot]? = content at same ⊢
        rcases content with _ | _ | entry
        · rfl
        · rfl
        · exact congrArg some (same entry rfl)
      next => exact found
    bound := Array.size_modify.trans shows.bound
    tracked := shows.tracked.trans Std.ExtTreeMap.size_modify.symm }

theorem place (shows : arena.Shows ledger) (valid : ledger.Valid) (ref : Ref) :
    Safe few (fun (next, slot) => slot = ledger.nextSlot ∧ next.index = arena.index ∧
        next.tracked = arena.tracked ∧
        ∀ tracked, tracked = (ledger.insert ref).trackedCount →
          Shows { next with index := arena.index.insert ref.id slot, tracked } (ledger.insert ref))
      (arena.place { item := ref }) := by
  unfold Arena.place
  have read := Ledger.getElem?_insert ledger ref
  cases free : arena.free with
  -- The index and the number of tracked values are brought up to date by the caller.
  | cons slot rest =>
    have listed : slot ∈ ledger.free := by rw [← shows.free, free]; exact List.mem_cons_self
    have below : slot < arena.slots.size := shows.bound ▸ ((valid.mem_free slot).mp listed).1
    have next : ledger.nextSlot = slot := by rw [Ledger.nextSlot, ← shows.free, free]; rfl
    refine (safe_writeAt _ below).bind ?_
    rintro _ rfl
    refine ⟨next.symm, rfl, rfl, fun tracked counted => ⟨fun other => ?_, ?_, ?_, ?_, ?_, ?_, counted⟩⟩
    · rw [read, next, occupant?, Array.getElem?_setIfInBounds, if_pos below, ← shows.entries]
      split <;> rfl
    · simp [Ledger.insert, ← shows.free, free, shows.bound]
    · simp [Ledger.insert, ← shows.free, free]
    · simp [Ledger.insert, next, shows.index]
    · exact shows.pending
    · exact shows.references
  -- With no free slot the array grows by one, and the new slot is its last place.
  | nil =>
    have next : ledger.nextSlot = arena.slots.size := by
      rw [Ledger.nextSlot, ← shows.free, free, shows.bound]
      rfl
    refine (safe_takeOff (by simp)).bind ?_
    rintro _ rfl
    have last : (arena.slots.push (some { item := ref })).size - 1 = arena.slots.size := by simp
    rw [last]
    refine ⟨next.symm, rfl, rfl, fun tracked counted => ⟨fun other => ?_, ?_, ?_, ?_, ?_, ?_, counted⟩⟩
    · rw [read, next, occupant?, Array.getElem?_push, ← shows.entries]
      by_cases here : other = arena.slots.size
      · simp [here]
      · simp [here, Ne.symm here, occupant?]
    · simp [Ledger.insert, ← shows.free, free, shows.bound]
    · simp [Ledger.insert, ← shows.free, free]
    · simp [Ledger.insert, next, shows.index]
    · exact shows.pending
    · exact shows.references

theorem track (shows : arena.Shows ledger) (valid : ledger.Valid) (ref : Ref) :
    Safe few (fun (next, slot) => next.Shows (ledger.track ref).1 ∧ slot = (ledger.track ref).2)
      (arena.track ref) := by
  unfold Arena.track Ledger.track
  rw [shows.slot?]
  cases known : ledger.slot? ref.id with
  | some slot => exact ⟨shows, rfl⟩
  | none =>
    have fresh : ledger.entries.contains ledger.nextSlot = false := by
      rw [Std.ExtTreeMap.contains_eq_isSome_getElem?, valid.nextSlot_empty]
      rfl
    have more : (ledger.insert ref).trackedCount = ledger.trackedCount + 1 := by
      unfold Ledger.trackedCount Ledger.insert
      rw [Std.ExtTreeMap.size_insert, fresh]
      rfl
    refine (shows.place valid ref).bind ?_
    rintro ⟨next, slot⟩ ⟨rfl, index, tracked, placed⟩
    refine (safe_addUp next.tracked 1).bind fun sum added => ?_
    obtain ⟨rfl, _⟩ := addCount_eq_ok_iff.mp added
    refine ⟨?_, rfl⟩
    rw [index]
    exact placed _ (by rw [tracked, shows.tracked, more])

end Shows

end Arena

end Reclaim
