import Reclaim.Proofs.Arena.Clearance
import Reclaim.Proofs.Collect.Resettling

/-! The walk over components on an arena. What has been found live is black in an array, and a slot is
looked up there only while it is in use. -/

set_option autoImplicit false

namespace Reclaim

structure Scan where
  clearance : Clearance
  black : Array Bool
  kept : List Component := []

namespace Scan

def isBlack (scan : Scan) (slot : Slot) : Checked Bool :=
  match scan.clearance.arena.occupant? slot with
  | none => return false
  | some _ => readAt scan.black slot

def isLive (scan : Scan) (component : Component) : Checked Bool :=
  component.anyM fun slot =>
    match scan.clearance.arena.occupant? slot with
    | none => return false
    | some entry => if entry.held > 0 then return true else entry.owners.keys.anyM scan.isBlack

def blacken (scan : Scan) (component : Component) : Checked (Array Bool) :=
  component.foldlM (fun black slot =>
    match scan.clearance.arena.occupant? slot with
    | none => return black
    | some _ => writeAt black slot true) scan.black

def resolve (scan : Scan) (component : Component) : Checked (Except LedgerError Scan) := do
  if ← scan.isLive component then
    let black ← scan.blacken component
    return .ok { scan with black, kept := scan.kept ++ [component] }
  else
    match ← scan.clearance.arena.reclaim scan.clearance.heap component with
    | .error error => return .error error
    | .ok clearance =>
      return .ok { scan with
        clearance := { clearance with removed := scan.clearance.removed ++ clearance.removed } }

def run (scan : Scan) : List Component → Checked (Scan × Option LedgerError)
  | [] => return (scan, none)
  | component :: rest => do
    match ← scan.resolve component with
    | .error error => return (scan, some error)
    | .ok next => next.run rest

/-- What has been found live is black. -/
structure Shows (scan : Scan) (sweep : Sweep) : Prop where
  clearance : scan.clearance.Shows sweep.removal
  below : ∀ slot, sweep.removal.ledger.entries[slot]?.isSome → slot < scan.black.size
  black_iff : ∀ slot, slot ∈ sweep.live ↔ scan.black[slot]? = some true
  kept : scan.kept = sweep.kept

variable {scan : Scan} {sweep : Sweep} {component : Component} {components rest : List Component} {few : Prop}
  {slot : Slot}

namespace Shows

theorem isBlack (shows : scan.Shows sweep)
    (occupied : ∀ slot ∈ sweep.live, sweep.removal.ledger.entries[slot]?.isSome) (slot : Slot) :
    Safe few (· = sweep.live.contains slot) (scan.isBlack slot) := by
  -- Live slots are in use, so nothing is black that is not.
  unfold Scan.isBlack
  rw [shows.clearance.arena.entries]
  cases found : sweep.removal.ledger.entries[slot]? with
  | none =>
    have outside : slot ∉ sweep.live := fun live => by
      have present := occupied slot live
      rw [found] at present
      cases present
    exact (Bool.eq_false_iff.mpr (mt Std.ExtTreeSet.contains_iff_mem.mp outside)).symm
  | some entry =>
    have below := shows.below slot (by rw [found]; rfl)
    have black := shows.black_iff slot
    rw [Array.getElem?_eq_getElem below, Option.some.injEq] at black
    refine (safe_readAt (Array.getElem?_eq_getElem below)).imp ?_
    rintro _ rfl
    rw [Bool.eq_iff_iff, Std.ExtTreeSet.contains_iff_mem, black]

theorem isLive (shows : scan.Shows sweep)
    (occupied : ∀ slot ∈ sweep.live, sweep.removal.ledger.entries[slot]?.isSome) (component : Component) :
    Safe few (· = sweep.isLive component) (scan.isLive component) := by
  refine safe_anyM fun slot _ => ?_
  rw [shows.clearance.arena.entries]
  cases sweep.removal.ledger.entries[slot]? with
  | none => exact rfl
  | some entry =>
    simp only
    split
    next held => simp [Safe, held, pure, Except.pure]
    next free =>
      refine (safe_anyM fun owner _ => shows.isBlack occupied owner).imp ?_
      rintro _ rfl
      simp [free]

theorem blacken (shows : scan.Shows sweep)
    (present : ∀ slot ∈ component, sweep.removal.ledger.entries[slot]?.isSome) :
    Safe few (fun black => black.size = scan.black.size ∧ ∀ slot, black[slot]? =
        if slot ∈ component then some true else scan.black[slot]?) (scan.blacken component) := by
  unfold Scan.blacken
  have bounded := shows.below
  generalize scan.black = black at bounded ⊢
  induction component generalizing black with
  | nil => exact ⟨rfl, fun slot => by simp⟩
  | cons slot component ih =>
    obtain ⟨here, others⟩ := List.forall_mem_cons.mp present
    obtain ⟨entry, found⟩ := Option.isSome_iff_exists.mp here
    have below := bounded slot here
    rw [List.foldlM_cons, shows.clearance.arena.entries, found]
    refine (safe_writeAt true below).bind ?_
    rintro _ rfl
    refine (ih others _ (by simpa using bounded)).imp fun after ⟨same, read⟩ => ?_
    refine ⟨same.trans Array.size_setIfInBounds, fun other => ?_⟩
    rw [read, Array.getElem?_setIfInBounds, if_pos below]
    by_cases later : other ∈ component
    · simp [later]
    · by_cases first : slot = other
      · simp [first]
      · simp [later, first, Ne.symm first]

theorem keep (shows : scan.Shows sweep) {black : Array Bool} (size : black.size = scan.black.size)
    (read : ∀ slot, black[slot]? = if slot ∈ component then some true else scan.black[slot]?) :
    Shows { scan with black, kept := scan.kept ++ [component] } (sweep.keep component) where
  clearance := shows.clearance
  below slot occupied := Nat.lt_of_lt_of_eq (shows.below slot occupied) size.symm
  black_iff slot := by
    simp only [Sweep.keep, Std.ExtTreeSet.mem_insertMany_list, List.contains_iff_mem, read]
    rw [shows.black_iff]
    split
    next member => simp [member]
    next outside => simp [outside]
  kept := congrArg (· ++ [component]) shows.kept

theorem drop {clearance : Clearance} {removal : Removal} (shows : scan.Shows sweep)
    (cuts : sweep.removal.ledger.Cuts sweep.removal.heap component removal) (left : clearance.Shows removal) :
    Shows { scan with clearance := { clearance with removed := scan.clearance.removed ++ clearance.removed } }
      (sweep.drop removal) where
  clearance := ⟨left.arena, left.heap, left.covers, by rw [shows.clearance.removed, left.removed]; rfl⟩
  below slot occupied := by
    obtain ⟨entry, found⟩ := Option.isSome_iff_exists.mp occupied
    obtain ⟨before, present, _⟩ := cuts.entry_cases found
    exact shows.below slot (by rw [present]; rfl)
  black_iff := shows.black_iff
  kept := shows.kept

theorem resolve (shows : scan.Shows sweep) (listing : sweep.Listing (component :: rest)) (marks : sweep.Marks) :
    Safe few (Alike Shows · (sweep.resolve component)) (scan.resolve component) := by
  -- Slots that have been found live are in use, for what has been kept is.
  have present : ∀ slot ∈ component, sweep.removal.ledger.entries[slot]?.isSome := fun slot member =>
    (listing.lists.mem_iff slot).mp (by simp [member])
  have occupied : ∀ slot ∈ sweep.live, sweep.removal.ledger.entries[slot]?.isSome := fun slot live =>
    (listing.lists.mem_iff slot).mp (by simp [(marks slot).mp live])
  unfold Scan.resolve Sweep.resolve
  refine (shows.isLive occupied component).bind ?_
  rintro _ rfl
  split
  next live =>
    refine (shows.blacken present).bind fun black ⟨size, read⟩ => ?_
    exact shows.keep size read
  next =>
    rw [shows.clearance.heap]
    refine (shows.clearance.arena.reclaim shows.clearance.covers component).bind fun result alike => ?_
    obtain ⟨error, rfl, refused⟩ | ⟨clearance, removal, rfl, reclaimed, left⟩ := alike.cases
    · rw [refused]
      exact rfl
    · rw [reclaimed]
      exact shows.drop (listing.cuts reclaimed) left

theorem run (shows : scan.Shows sweep) (listing : sweep.Listing components) (marks : sweep.Marks) :
    Safe few (fun (last, error) => error = (sweep.run components).2 ∧ last.Shows (sweep.run components).1)
      (scan.run components) := by
  induction components generalizing scan sweep with
  | nil => exact ⟨rfl, shows⟩
  | cons component rest ih =>
    unfold Scan.run Sweep.run
    refine (shows.resolve listing marks).bind fun result alike => ?_
    obtain ⟨error, rfl, failed⟩ | ⟨scan, next, rfl, resolved, shows⟩ := alike.cases
    · rw [failed]
      exact ⟨rfl, shows⟩
    · rw [resolved]
      exact ih shows (listing.resolve resolved) (marks.resolve resolved)

end Shows

end Scan

end Reclaim
