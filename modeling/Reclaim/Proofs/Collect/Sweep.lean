import Reclaim.Proofs.Collect.Graphs
import Reclaim.Proofs.Graph.Decomposition

/-! The walk over components. Owners come before what they own, so when a component is reached it
is known of each owner outside of it whether it is live. A component that is neither held nor
owned from a live one is dead as a whole, and nothing that is left contains any of it. -/

set_option autoImplicit false

namespace Reclaim

namespace Sweep

variable {ledger : Ledger} {heap : Heap} {created : Nat} {refs : List Ref} {sweep : Sweep}
  {component : Component} {rest : List Component}

/-- What the walk has established before the components that are left. -/
structure Progress (ledger : Ledger) (heap : Heap) (created : Nat) (refs : List Ref) (sweep : Sweep)
    (rest : List Component) : Prop where
  collects : ledger.Collects heap created refs sweep.removal
  decomposition : sweep.removal.ledger.ownerGraph.Decomposition (sweep.kept ++ rest)
  live_iff : ∀ slot, slot ∈ sweep.live ↔ slot ∈ sweep.kept.flatten
  alive : ∀ slot ∈ sweep.kept.flatten, ∀ entry, sweep.removal.ledger.entries[slot]? = some entry →
    sweep.removal.ledger.Live sweep.removal.heap entry.item

theorem isLive_iff : sweep.isLive component ↔ ∃ slot ∈ component, ∃ entry,
    sweep.removal.ledger.entries[slot]? = some entry ∧
      (0 < entry.held ∨ ∃ owner ∈ sweep.live, entry.owners[owner]?.isSome) := by
  unfold isLive
  rw [List.any_eq_true]
  refine exists_congr fun slot => and_congr_right fun _ => ?_
  cases sweep.removal.ledger.entries[slot]? with
  | none => simp
  | some entry => simp [and_comm]

namespace Progress

theorem occupied (progress : sweep.Progress ledger heap created refs (component :: rest)) (slot : Slot)
    (member : slot ∈ component) : sweep.removal.ledger.entries[slot]?.isSome := by
  refine Ledger.mem_occupied.mp ((progress.decomposition.mem_iff slot).mp ?_)
  simp [member]

theorem live_of_isLive (progress : sweep.Progress ledger heap created refs (component :: rest))
    (live : sweep.isLive component) {slot : Slot} {entry : Entry} (member : slot ∈ component)
    (found : sweep.removal.ledger.entries[slot]? = some entry) :
    sweep.removal.ledger.Live sweep.removal.heap entry.item := by
  have sound := progress.collects.sound
  obtain ⟨source, sourceMember, sourceEntry, present, reason⟩ := isLive_iff.mp live
  have source_live : sweep.removal.ledger.Live sweep.removal.heap sourceEntry.item := by
    rcases reason with held | ⟨owner, ownerLive, recorded⟩
    · exact sound.valid.live_of_held present held
    · obtain ⟨edges, counted⟩ := Option.isSome_iff_exists.mp recorded
      obtain ⟨ownerEntry, ownerFound⟩ := sound.closed source sourceEntry owner edges present counted
      have owner_live := progress.alive owner ((progress.live_iff owner).mp ownerLive) ownerEntry
        ownerFound
      exact owner_live.child ((sound.recorded_iff present ownerFound).mp recorded)
  have path := progress.decomposition.connected component (by simp) slot member source sourceMember
  exact source_live.leads (sound.leads_of_owner_reach path found present)

/-- What contains a member of a dead component is a member. -/
theorem enclosed (progress : sweep.Progress ledger heap created refs (component :: rest))
    (dead : ¬sweep.isLive component) {owner item : Ref} (contains : sweep.removal.heap.Contains owner item)
    (member : item ∈ sweep.removal.ledger.items component) :
    owner ∈ sweep.removal.ledger.items component := by
  have sound := progress.collects.sound
  obtain ⟨slot, inside, entry, found, rfl⟩ := Ledger.mem_items.mp member
  obtain ⟨ownerSlot, ownerEntry, ownerFound, rfl⟩ :=
    Ledger.mem_tracked.mp (sound.tracked_of_contains contains).1
  have recorded := (sound.recorded_iff found ownerFound).mpr contains
  have edge := Ledger.owner_edge_iff.mpr ⟨entry, found, recorded, by rw [ownerFound]; rfl⟩
  -- The owner stands no later. Were it kept before, the component would count as live.
  rcases progress.decomposition.edge_mem inside edge with earlier | same
  · have live := (progress.live_iff ownerSlot).mpr earlier
    exact absurd (isLive_iff.mpr ⟨slot, inside, entry, found, .inr ⟨ownerSlot, live, recorded⟩⟩) dead
  · exact Ledger.mem_items.mpr ⟨ownerSlot, same, ownerEntry, ownerFound, rfl⟩

theorem not_live (progress : sweep.Progress ledger heap created refs (component :: rest))
    (dead : ¬sweep.isLive component) (ref : Ref)
    (member : ref ∈ sweep.removal.ledger.items component) :
    ¬sweep.removal.ledger.Live sweep.removal.heap ref := by
  refine Ledger.not_live_of_enclosed (fun owner item => progress.enclosed dead) ?_ member
  intro other inside
  obtain ⟨slot, slotMember, entry, found, rfl⟩ := Ledger.mem_items.mp inside
  rw [progress.collects.sound.valid.held_eq found]
  refine Nat.eq_zero_of_not_pos fun held => dead ?_
  exact isLive_iff.mpr ⟨slot, slotMember, entry, found, .inl held⟩

theorem keep (progress : sweep.Progress ledger heap created refs (component :: rest))
    (live : sweep.isLive component) :
    Progress ledger heap created refs
      { sweep with live := sweep.live.insertMany component, kept := sweep.kept ++ [component] } rest where
  collects := progress.collects
  decomposition := by
    rw [List.append_assoc]
    exact progress.decomposition
  live_iff slot := by
    rw [List.flatten_append, List.flatten_singleton, List.mem_append, ← progress.live_iff]
    simp only [Std.ExtTreeSet.mem_insertMany_list, List.contains_iff_mem]
  alive slot member entry found := by
    rw [List.flatten_append, List.flatten_singleton, List.mem_append] at member
    rcases member with before | new
    · exact progress.alive slot before entry found
    · exact progress.live_of_isLive live new found

theorem remove {removal : Removal} (progress : sweep.Progress ledger heap created refs (component :: rest))
    (collects : sweep.removal.ledger.Collects sweep.removal.heap created
      (sweep.removal.ledger.items component) removal)
    (vacates : sweep.removal.ledger.Vacates component removal.ledger) :
    Progress ledger heap created (refs ++ sweep.removal.ledger.items component)
      { sweep with removal := { removal with removed := sweep.removal.removed ++ removal.removed } }
      rest where
  collects := progress.collects.append collects
  decomposition := progress.decomposition.drop (fun _ => vacates.mem_occupied) fun _ _ =>
    vacates.owner_edge_iff
  live_iff := progress.live_iff
  alive slot member entry found := by
    obtain ⟨_, before, present, rfl⟩ := vacates.entry_cases found
    exact (collects.live_iff _).mpr (progress.alive slot member before present)

end Progress

/-- A walk ends with all dead values removed, or the total does not cover the children of dead
values. -/
theorem run_progress (components : List Component)
    (progress : sweep.Progress ledger heap created refs components) :
    (∃ last more, sweep.run components = (last, none) ∧ last.Progress ledger heap created more []) ∨
    ∃ last dead, sweep.run components = (last, some .totalUnderflow) ∧ dead.Nodup ∧
      (∀ ref ∈ dead, ref ∈ ledger.tracked ∧ ¬ledger.Live heap ref) ∧
      ledger.total < heap.childTotal dead := by
  induction components generalizing sweep refs with
  | nil => exact .inl ⟨sweep, refs, rfl, progress⟩
  | cons component rest ih =>
    unfold run resolve
    by_cases live : sweep.isLive component
    · rw [if_pos live]
      exact ih (progress.keep live)
    rw [if_neg live]
    have sound := progress.collects.sound
    have nodup : component.Nodup := progress.decomposition.nodup_component (by simp)
    by_cases covered : sweep.removal.heap.childTotal (sweep.removal.ledger.items component) ≤
        sweep.removal.ledger.total
    · obtain ⟨removal, reclaimed, collects, vacates⟩ := sound.collects nodup progress.occupied
        (fun _ _ => progress.enclosed live) (progress.not_live live) covered
      rw [reclaimed]
      exact ih (progress.remove collects vacates)
    · have short := Nat.not_le.mp covered
      rw [sound.reclaim_refused progress.occupied short]
      -- What has been removed so far and the component are dead, and too much for the total.
      have dead : ∀ ref ∈ sweep.removal.ledger.items component, ref ∈ sweep.removal.ledger.tracked ∧
          ¬sweep.removal.ledger.Live sweep.removal.heap ref := fun ref member =>
        ⟨Ledger.tracked_of_items member, progress.not_live live ref member⟩
      obtain ⟨nodup, dead, total⟩ := progress.collects.extend (sound.valid.nodup_items nodup) dead
      refine .inr ⟨sweep, refs ++ sweep.removal.ledger.items component, rfl, nodup, dead, ?_⟩
      rw [progress.collects.total_eq] at short
      omega

theorem Progress.mem_refs (progress : sweep.Progress ledger heap created refs []) (ref : Ref) :
    ref ∈ refs ↔ ref ∈ ledger.tracked ∧ ¬ledger.Live heap ref := by
  refine ⟨progress.collects.dead ref, fun ⟨tracked, dead⟩ => ?_⟩
  refine Classical.byContradiction fun outside => dead ?_
  obtain ⟨slot, entry, found, rfl⟩ :=
    Ledger.mem_tracked.mp ((progress.collects.tracked_iff ref).mpr ⟨tracked, outside⟩)
  have listed := (progress.decomposition.mem_iff slot).mpr
    (Ledger.mem_occupied.mpr (by rw [found]; rfl))
  rw [List.append_nil] at listed
  exact (progress.collects.live_iff _).mp (progress.alive slot listed entry found)

theorem mem_of_kept {components : List Component} (sweep : Sweep)
    (kept : component ∈ (sweep.run components).1.kept) :
    component ∈ sweep.kept ∨ component ∈ components := by
  induction components generalizing sweep with
  | nil => exact .inl kept
  | cons first rest ih =>
    unfold run at kept
    split at kept
    next => exact .inl kept
    next next resolved =>
      rcases ih next kept with before | later
      · unfold resolve at resolved
        split at resolved
        · cases resolved
          rcases List.mem_append.mp before with before | new
          · exact .inl before
          · exact .inr (List.mem_cons.mpr (.inl (List.mem_singleton.mp new)))
        · obtain ⟨removal, _, rfl⟩ := ok_of_map resolved
          exact .inl before
      · exact .inr (List.mem_cons_of_mem _ later)

end Sweep

end Reclaim
