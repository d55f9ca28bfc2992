import Reclaim.Proofs.Arena.Basic

/-! The counting operations on an arena. Each shows what the operation of the ledger does, refuses what that
one refuses, and neither leaves the array nor takes more off a count than it has. -/

set_option autoImplicit false

namespace Reclaim

namespace Arena

def addHolds (arena : Arena) (item : Value) (count : Nat) : Checked Arena := do
  let references ← addUp arena.references count
  match item.ref? with
  | none => return { arena with references }
  | some ref =>
    let (arena, slot) ← { arena with references }.track ref
    match arena.occupant? slot with
    | none => return { arena with pending := arena.pending.erase slot }
    | some entry =>
      let held ← addUp entry.held count
      let arena := arena.change slot fun entry => { entry with held }
      return { arena with pending := arena.pending.erase slot }

def dropReference (arena : Arena) : Checked Arena := do
  let references ← takeOff arena.references 1
  return { arena with references }

def removeHold (arena : Arena) (item : Value) : Checked (Except LedgerError Arena) :=
  match item.ref? with
  | none =>
    if arena.references = 0 then return .error .totalUnderflow
    else .ok <$> arena.dropReference
  | some ref =>
    match arena.index[ref.id]? with
    | none => return .error (.holdUnderflow ref.id)
    | some slot => do
      match ← readAt arena.slots slot with
      | none => return .error (.holdUnderflow ref.id)
      | some entry =>
        if entry.held = 0 then return .error (.holdUnderflow ref.id)
        else if arena.references = 0 then return .error .totalUnderflow
        else
          let held ← takeOff entry.held 1
          let dropped := arena.change slot fun entry => { entry with held }
          .ok <$> (if held = 0 then dropped.markPending slot else dropped).dropReference

def register (arena : Arena) (item : Value) : Checked Arena :=
  match item.ref? with
  | none => return arena
  | some ref => do
    let (arena, slot) ← arena.track ref
    return arena.markPending slot

def trackOwner (arena : Arena) (ref : Ref) : Checked (Arena × Slot) :=
  match arena.index[ref.id]? with
  | some slot => return (arena, slot)
  | none => do
    let (arena, slot) ← arena.track ref
    return (arena.markPending slot, slot)

def link (arena : Arena) (item : Value) (owner : Slot) : Checked Arena := do
  let references ← addUp arena.references 1
  match item.ref? with
  | none => return { arena with references }
  | some ref =>
    let (arena, slot) ← { arena with references }.track ref
    match arena.occupant? slot with
    | none => return arena
    | some entry =>
      let edges ← addUp (entry.owners.getD owner 0) 1
      return arena.change slot fun entry => { entry with owners := entry.owners.insert owner edges }

def addEdge (arena : Arena) (item owner : Value) : Checked (Except LedgerError Arena) :=
  match owner.container? with
  | none => return .error (.notContainer owner)
  | some ownerId => do
    let (arena, ownerSlot) ← arena.trackOwner (.container ownerId)
    .ok <$> arena.link item ownerSlot

def removeEdge (arena : Arena) (item owner : Value) : Checked (Except LedgerError Arena) :=
  match owner.container? with
  | none => return .error (.notContainer owner)
  | some ownerId =>
    match item.ref? with
    | none =>
      if (arena.index[ownerId]?).isNone then return .error (.untrackedOwner ownerId)
      else if arena.references = 0 then return .error .totalUnderflow
      else .ok <$> arena.dropReference
    | some ref =>
      match arena.index[ownerId]?, arena.index[ref.id]? with
      | some ownerSlot, some slot => do
        match ← readAt arena.slots slot with
        | none => return .error (.missingEdge ref.id ownerId)
        | some entry =>
          match entry.owners[ownerSlot]? with
          | none => return .error (.missingEdge ref.id ownerId)
          | some recorded =>
            if arena.references = 0 then return .error .totalUnderflow
            else
              let edges ← takeOff recorded 1
              let removed := arena.change slot fun entry => { entry with
                owners := if edges = 0 then entry.owners.erase ownerSlot
                  else entry.owners.insert ownerSlot edges }
              .ok <$> (if entry.held = 0 then removed.markPending slot else removed).dropReference
      | _, _ => return .error (.missingEdge ref.id ownerId)

variable {arena : Arena} {ledger : Ledger} {item owner : Value} {ref : Ref} {slot : Slot} {entry : Entry}
  {few : Prop} {count : Nat}

namespace Shows

theorem register (shows : arena.Shows ledger) (valid : ledger.Valid) (item : Value) :
    Safe few (·.Shows (ledger.register item)) (arena.register item) := by
  unfold Arena.register Ledger.register
  cases item with
  | scalar atom => exact shows
  | shared ref =>
    refine (shows.track valid ref).bind ?_
    rintro ⟨next, slot⟩ ⟨tracked, rfl⟩
    exact tracked.markPending _

theorem unmark (shows : arena.Shows ledger) (slot : Slot) :
    Shows { arena with pending := arena.pending.erase slot }
      { ledger with pending := ledger.pending.erase slot } :=
  { shows with pending := congrArg (·.erase slot) shows.pending }

theorem addHolds (shows : arena.Shows ledger) (valid : ledger.Valid) (item : Value) (count : Nat) :
    Safe few (fun next => ∃ after, ledger.addHolds item count = .ok after ∧ next.Shows after)
      (arena.addHolds item count) := by
  unfold Arena.addHolds Ledger.addHolds
  rw [shows.references]
  refine (safe_addUp ledger.total count).bind fun total added => ?_
  rw [added]
  cases item with
  | scalar atom => exact ⟨_, rfl, shows.withReferences total⟩
  | shared ref =>
    refine ((shows.withReferences total).track valid.withTotal ref).bind ?_
    rintro ⟨next, slot⟩ ⟨tracked, rfl⟩
    have known := Ledger.slot?_track { ledger with total } ref
    have valid := valid.withTotal.changes (Ledger.changes_track { ledger with total } ref)
    obtain ⟨entry, found, _⟩ := valid.entry_of_slot? known
    have held : ({ ledger with total }.track ref).1.heldAt ({ ledger with total }.track ref).2 = entry.held := by
      rw [Ledger.heldAt, found]
      rfl
    simp only
    rw [tracked.entries, found]
    refine (safe_addUp entry.held count).bind fun sum added => ?_
    refine ⟨_, ?_, (tracked.change fun _ _ => rfl).unmark _⟩
    simp only [Value.ref?_shared]
    show (do let held ← addCount (({ ledger with total }.track ref).1.heldAt _) count; _) = _
    rw [held, added]
    rfl

theorem dropReference (shows : arena.Shows ledger) (covered : ledger.total ≠ 0) :
    Safe few (fun result => Alike Shows result
      (.ok { ledger with total := ledger.total - 1 } : Except LedgerError Ledger))
      (Except.ok <$> arena.dropReference) := by
  unfold Arena.dropReference
  rw [shows.references]
  have lowered : Safe few (·.Shows { ledger with total := ledger.total - 1 })
      (do let references ← takeOff ledger.total 1; return { arena with references } : Checked Arena) := by
    refine (safe_takeOff (Nat.pos_of_ne_zero covered)).bind ?_
    rintro _ rfl
    exact shows.withReferences _
  exact lowered.map fun _ shows => shows

theorem read (shows : arena.Shows ledger) (found : ledger.entries[slot]? = some entry) :
    arena.slots[slot]? = some (some entry) :=
  slots_of_occupant? ((shows.entries slot).trans found)

theorem removeHold (shows : arena.Shows ledger) (valid : ledger.Valid) (item : Value) :
    Safe few (Alike Shows · (ledger.removeHold item)) (arena.removeHold item) := by
  unfold Arena.removeHold Ledger.removeHold
  rw [shows.references]
  cases item with
  | scalar atom =>
    simp only [Value.ref?_scalar]
    split
    next => exact rfl
    next covered => exact shows.dropReference covered
  | shared ref =>
    simp only [Value.ref?_shared, shows.slot?, Ledger.find?]
    cases known : ledger.slot? ref.id with
    | none => exact rfl
    | some slot =>
      obtain ⟨entry, found, _⟩ := valid.entry_of_slot? known
      simp only [Option.bind_some, found, Option.map_some]
      refine (safe_readAt (shows.read found)).bind ?_
      rintro _ rfl
      simp only
      split
      next => exact rfl
      next held =>
        split
        next => exact rfl
        next covered =>
          refine (safe_takeOff (Nat.pos_of_ne_zero held)).bind ?_
          rintro _ rfl
          have lowered : (arena.change slot fun other => { other with held := entry.held - 1 }).Shows
              (ledger.update slot fun other => { other with held := other.held - 1 }) := by
            refine shows.change fun other present => ?_
            rw [found] at present
            cases present
            rfl
          by_cases last : entry.held = 1
          · rw [if_pos last, if_pos (by omega)]
            exact (lowered.markPending slot).dropReference covered
          · rw [if_neg last, if_neg (by omega)]
            exact lowered.dropReference covered

theorem trackOwner (shows : arena.Shows ledger) (valid : ledger.Valid) (ref : Ref) :
    Safe few (fun (next, slot) => next.Shows (ledger.trackOwner ref).1 ∧ slot = (ledger.trackOwner ref).2)
      (arena.trackOwner ref) := by
  have tracks : Safe few _ (arena.track ref) := shows.track valid ref
  unfold Arena.trackOwner Ledger.trackOwner
  rw [shows.slot?]
  unfold Ledger.track at tracks
  cases known : ledger.slot? ref.id with
  | some slot => exact ⟨shows, rfl⟩
  | none =>
    rw [known] at tracks
    refine tracks.bind ?_
    rintro ⟨next, slot⟩ ⟨tracked, rfl⟩
    exact ⟨tracked.markPending _, rfl⟩

theorem link (shows : arena.Shows ledger) (valid : ledger.Valid) (item : Value) (owner : Slot) :
    Safe few (fun next => ∃ after, ledger.link item owner = .ok after ∧ next.Shows after)
      (arena.link item owner) := by
  unfold Arena.link Ledger.link
  rw [shows.references]
  refine (safe_addUp ledger.total 1).bind fun total added => ?_
  rw [added]
  cases item with
  | scalar atom => exact ⟨_, rfl, shows.withReferences total⟩
  | shared ref =>
    refine ((shows.withReferences total).track valid.withTotal ref).bind ?_
    rintro ⟨next, slot⟩ ⟨tracked, rfl⟩
    have known := Ledger.slot?_track { ledger with total } ref
    have valid := valid.withTotal.changes (Ledger.changes_track { ledger with total } ref)
    obtain ⟨entry, found, _⟩ := valid.entry_of_slot? known
    have edges : ({ ledger with total }.track ref).1.edgesAt ({ ledger with total }.track ref).2 owner =
        entry.owners.getD owner 0 := by
      rw [Ledger.edgesAt, found, Std.ExtTreeMap.getD_eq_getD_getElem?]
      rfl
    simp only
    rw [tracked.entries, found]
    refine (safe_addUp (entry.owners.getD owner 0) 1).bind fun sum added => ?_
    refine ⟨_, ?_, tracked.change fun _ _ => rfl⟩
    simp only [Value.ref?_shared]
    show (do let edges ← addCount (({ ledger with total }.track ref).1.edgesAt _ owner) 1; _) = _
    rw [edges, added]
    rfl

theorem addEdge (shows : arena.Shows ledger) (valid : ledger.Valid) (item owner : Value) :
    Safe few (fun result => Alike Shows (result.mapError .refused) (ledger.addEdge item owner))
      (arena.addEdge item owner) := by
  unfold Arena.addEdge Ledger.addEdge
  cases owner.container? with
  | none => exact rfl
  | some id =>
    refine (shows.trackOwner valid (.container id)).bind ?_
    rintro ⟨next, slot⟩ ⟨tracked, rfl⟩
    have valid := valid.changes (Ledger.changes_trackOwner ledger (.container id))
    refine Safe.map (tracked.link valid item _) ?_
    rintro after ⟨linked, result, shows⟩
    simp only [result]
    exact shows

theorem removeEdge (shows : arena.Shows ledger) (valid : ledger.Valid) (item owner : Value) :
    Safe few (Alike Shows · (ledger.removeEdge item owner)) (arena.removeEdge item owner) := by
  unfold Arena.removeEdge Ledger.removeEdge
  rw [shows.references]
  cases owner.container? with
  | none => exact rfl
  | some id =>
    cases item with
    | scalar atom =>
      simp only [Value.ref?_scalar, shows.slot?]
      split
      next => exact rfl
      next =>
        split
        next => exact rfl
        next covered => exact shows.dropReference covered
    | shared ref =>
      simp only [Value.ref?_shared, shows.slot?, Ledger.find?]
      cases ledger.slot? id with
      | none => exact rfl
      | some ownerSlot =>
        cases known : ledger.slot? ref.id with
        | none => exact rfl
        | some slot =>
          obtain ⟨entry, found, _⟩ := valid.entry_of_slot? known
          simp only [Option.bind_some, found, Option.map_some]
          refine (safe_readAt (shows.read found)).bind ?_
          rintro _ rfl
          simp only
          cases recorded : entry.owners[ownerSlot]? with
          | none => exact rfl
          | some edges =>
            -- No owner is on record with zero edges, so one can be taken off.
            have positive := valid.edges_pos slot entry ownerSlot edges found recorded
            simp only [Option.isNone_some, Bool.false_eq_true, if_false]
            split
            next => exact rfl
            next covered =>
              refine (safe_takeOff positive).bind ?_
              rintro _ rfl
              have lowered : (arena.change slot fun other => { other with
                  owners := if edges - 1 = 0 then other.owners.erase ownerSlot
                    else other.owners.insert ownerSlot (edges - 1) }).Shows
                  (ledger.update slot (Ledger.Entry.withoutEdge · ownerSlot)) := by
                refine shows.change fun other present => ?_
                rw [found] at present
                cases present
                unfold Ledger.Entry.withoutEdge
                rw [recorded]
                match edges, positive with
                | 1, _ => rfl
                | more + 2, _ => rfl
              by_cases held : entry.held = 0
              · rw [if_pos held, if_pos held]
                exact (lowered.markPending slot).dropReference covered
              · rw [if_neg held, if_neg held]
                exact lowered.dropReference covered

end Shows

end Arena

end Reclaim
