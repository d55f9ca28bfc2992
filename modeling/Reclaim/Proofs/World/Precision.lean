import Reclaim.Proofs.Ledger.Agreement
import Reclaim.Proofs.Ledger.Coverage
import Reclaim.Proofs.World.Soundness

/-! What settles do in paired runs. A pass leaves exactly the live values tracked. A settle without a
pass misses nothing, because every tracked value is led to from one that is held or pending. -/

set_option autoImplicit false

namespace Reclaim

def Heap.Retains (heap : Heap) (owed : List Due) (owner item : Ref) : Prop :=
  heap.Contains owner item ∨ .loss (.shared item) (.shared owner) ∈ owed

namespace Ledger

variable {ledger : Ledger} {heap : Heap} {created : Nat} {owed : List Due} {ref : Ref}

def Records (ledger : Ledger) (owner item : Ref) : Prop :=
  owner ∈ ledger.tracked ∧ item ∈ ledger.tracked ∧ 0 < ledger.edges (.shared item) (.shared owner)

namespace Sound

theorem owns_of_contains {owner item : Ref} (sound : ledger.Sound heap created [])
    (contains : heap.Contains owner item) : ledger.book.Owns owner.id item.id := by
  have held := sound.formed.children_held _ _ contains
  have balanced := sound.balanced item owner held (Heap.holds_of_mem_children contains)
  rw [sound.valid.edges_eq] at balanced
  have places := List.count_pos_iff.mpr contains
  simp only [List.count_nil] at balanced
  unfold Book.Owns
  omega

theorem retains_of_records {owner item : Ref} (sound : ledger.Sound heap created owed)
    (records : ledger.Records owner item) : heap.Retains owed owner item := by
  obtain ⟨ownerTracked, tracked, edges⟩ := records
  have balanced := sound.balanced item owner (sound.present _ tracked) (sound.present _ ownerTracked)
  unfold Heap.Retains Heap.Contains
  rw [← List.count_pos_iff, ← List.count_pos_iff]
  omega

theorem led_to_of_covered (sound : ledger.Sound heap created owed) (covered : ledger.book.Covered)
    (ref : Ref) (tracked : ref ∈ ledger.tracked) : ∃ root ∈ ledger.tracked,
      (0 < ledger.held (.shared root) ∨ ledger.isPending (.shared root)) ∧
        Relation.ReflTransGen ledger.Records root ref := by
  obtain ⟨entered, present, _⟩ := sound.valid.mem_tracked_iff.mp tracked
  obtain ⟨rootId, ⟨account, known, rooted⟩, path⟩ := covered ref.id (by rw [present]; rfl)
  obtain ⟨same, root⟩ := sound.valid.tracked_of_account known
  -- The path between identities is followed value by value, from the account that it starts at.
  have followed : ∀ id, Relation.ReflTransGen ledger.book.Owns rootId id →
      ∃ item ∈ ledger.tracked, item.id = id ∧
        Relation.ReflTransGen ledger.Records account.item item := by
    intro id path
    induction path with
    | refl => exact ⟨account.item, root, same, .refl⟩
    | @tail _ last _ owns ih =>
      obtain ⟨owner, ownerTracked, rfl, path⟩ := ih
      cases entered : ledger.book.account last with
      | none => simp [Book.Owns, Book.edges, entered] at owns
      | some child =>
        obtain ⟨rfl, childTracked⟩ := sound.valid.tracked_of_account entered
        exact ⟨child.item, childTracked, rfl, path.tail ⟨ownerTracked, childTracked,
          (sound.valid.edges_eq child.item owner).symm ▸ owns⟩⟩
  obtain ⟨item, itemTracked, named, edges⟩ := followed ref.id path
  obtain rfl := sound.formed.inj item ref (sound.present _ itemTracked) (sound.present _ tracked) named
  refine ⟨account.item, root, ?_, edges⟩
  rw [sound.valid.held_eq_book, sound.valid.isPending_eq_book, same, known]
  exact rooted

theorem retains_of_covered (sound : ledger.Sound heap created owed) (covered : ledger.book.Covered)
    (ref : Ref) (tracked : ref ∈ ledger.tracked) : ∃ root ∈ ledger.tracked,
      (0 < ledger.held (.shared root) ∨ ledger.isPending (.shared root)) ∧
        Relation.ReflTransGen (heap.Retains owed) root ref := by
  obtain ⟨root, rootTracked, reason, path⟩ := sound.led_to_of_covered covered ref tracked
  have retained : ∀ owner item, ledger.Records owner item → heap.Retains owed owner item :=
    fun _ _ => sound.retains_of_records
  exact ⟨root, rootTracked, reason, Relation.ReflTransGen.mono retained _ _ path⟩

theorem leads_of_covered (sound : ledger.Sound heap created []) (covered : ledger.book.Covered)
    (ref : Ref) (tracked : ref ∈ ledger.tracked) : ∃ root ∈ ledger.tracked,
      (0 < ledger.held (.shared root) ∨ ledger.isPending (.shared root)) ∧ heap.Leads root ref := by
  obtain ⟨root, rootTracked, reason, path⟩ := sound.retains_of_covered covered ref tracked
  have contents : ∀ owner item, heap.Retains [] owner item → heap.Contains owner item := by
    rintro owner item (contains | lost)
    · exact contains
    · cases lost
  exact ⟨root, rootTracked, reason, Relation.ReflTransGen.mono contents _ _ path⟩

theorem live_of_covered (sound : ledger.Sound heap created []) (covered : ledger.book.Covered)
    (idle : ledger.hasPending = false) (ref : Ref) (tracked : ref ∈ ledger.tracked) :
    ledger.Live heap ref := by
  obtain ⟨root, rootTracked, held | pending, path⟩ := sound.leads_of_covered covered ref tracked
  · exact ⟨root, rootTracked, held, path⟩
  · rw [isPending_of_idle idle] at pending
    cases pending

theorem covered_of_live (sound : ledger.Sound heap created [])
    (live : ∀ ref ∈ ledger.tracked, ledger.Live heap ref) : ledger.book.Covered := by
  intro id known
  obtain ⟨account, known⟩ := Option.isSome_iff_exists.mp known
  obtain ⟨rfl, tracked⟩ := sound.valid.tracked_of_account known
  obtain ⟨root, rootTracked, held, path⟩ := live account.item tracked
  obtain ⟨rootAccount, rootKnown, same⟩ := sound.valid.mem_tracked_iff.mp rootTracked
  rw [sound.valid.held_eq_book, rootKnown] at held
  have rooted : ledger.book.Rooted root.id := ⟨rootAccount, rootKnown, .inl held⟩
  generalize account.item = item at path
  induction path with
  | refl => exact rooted.reached
  | tail _ contains ih =>
    exact ih.tail (sound.owns_of_contains contains)

end Sound

end Ledger

namespace World

variable {world after : World} {reply : Answer}

/-- A settle that runs a pass leaves those values tracked that were and are live. -/
theorem settle_keeps_exactly_live (settings : Settings) (listener : Listener) {calls : List Call}
    (paired : (settings.world listener).Paired [] calls) (turn : Turn)
    (made : turn ∈ (settings.world listener).play [] calls) (settles : turn.call = .settle)
    (count : Nat) (settled : turn.result = .ok (.number count))
    (passed : turn.after.counter.stats.collected = true) (ref : Ref) :
    ref ∈ turn.after.counter.ledger.tracked ↔
      ref ∈ turn.before.counter.ledger.tracked ∧ turn.before.counter.ledger.Live turn.before.heap ref := by
  obtain ⟨⟨owed, sound, allowed⟩, performed, _⟩ := paired.sound turn made
  rw [settles] at allowed performed
  obtain rfl : owed = [] := allowed
  rw [settled] at performed
  obtain ⟨_, result, _, counter, _⟩ := settle_ok performed
  rw [counter] at passed ⊢
  obtain ⟨refs, collects⟩ | skipped := Counter.Sound.settle_cases sound result
  · refine (collects.collects.tracked_iff ref).trans ?_
    rw [collects.complete ref, not_and_not_right]
    exact and_congr_right fun tracked => ⟨fun live => live tracked, fun live _ => live⟩
  · rw [skipped] at passed
    cases passed

/-- The settle at the end. Under the incremental strategy it walks the components that the first one has left
in the cache. -/
def cycleSettle (strategy : Strategy) : Turn :=
  (World.play { counter := { strategy } } [] cycleCalls).get ⟨11, by cases strategy <;> decide +kernel⟩

theorem settle_keeps_exactly_live_cycle :
    (Ref.container 1 ∈ (cycleSettle .incremental).after.counter.ledger.tracked ↔
        Ref.container 1 ∈ (cycleSettle .incremental).before.counter.ledger.tracked ∧
          (cycleSettle .incremental).before.counter.ledger.Live (cycleSettle .incremental).before.heap
            (.container 1)) ∧
      (Ref.container 1 ∈ (cycleSettle .markSweep).after.counter.ledger.tracked ↔
        Ref.container 1 ∈ (cycleSettle .markSweep).before.counter.ledger.tracked ∧
          (cycleSettle .markSweep).before.counter.ledger.Live (cycleSettle .markSweep).before.heap
            (.container 1)) := by
  constructor
  · exact settle_keeps_exactly_live { strategy := .incremental } .absent (by decide +kernel)
      (cycleSettle .incremental) (List.get_mem _ _) (by decide +kernel) 0 (by decide +kernel) (by decide +kernel)
      (.container 1)
  · exact settle_keeps_exactly_live { strategy := .markSweep } .absent (by decide +kernel)
      (cycleSettle .markSweep) (List.get_mem _ _) (by decide +kernel) 0 (by decide +kernel) (by decide +kernel)
      (.container 1)

theorem covered_settle (sound : world.Sound []) (covered : world.counter.ledger.book.Covered)
    (performed : world.perform .settle = (after, .ok reply)) : after.counter.ledger.book.Covered := by
  obtain ⟨count, result, _, counter, _⟩ := settle_ok performed
  rw [counter]
  obtain ⟨refs, collects⟩ | skipped := Counter.Sound.settle_cases sound result
  · refine collects.sound.ledger.covered_of_live fun ref tracked => ?_
    obtain ⟨before, outside⟩ := (collects.collects.tracked_iff ref).mp tracked
    refine (collects.collects.live_iff ref).mpr (Classical.byContradiction fun dead => outside ?_)
    exact (collects.complete ref).mpr ⟨before, dead⟩
  · rw [skipped]
    exact covered

/-- Every tracked value stays covered if no addition of holds adds none. -/
theorem covered_perform {owed : List Due} {call : Call} (sound : world.Sound owed)
    (covered : world.counter.ledger.book.Covered) (allowed : call.Allowed owed)
    (positive : ∀ item count, call = .addHolds item count → 1 ≤ count)
    (performed : world.perform call = (after, .ok reply)) : after.counter.ledger.book.Covered := by
  by_cases settles : call = .settle
  · rw [settles] at allowed performed
    obtain rfl : owed = [] := allowed
    exact covered_settle sound covered performed
  have heard := sound.book_perform settles performed
  cases call with
  | register item => exact Except.ok.inj heard ▸ covered.register
  | addHolds item count => exact covered.addHolds (positive item count rfl) (ok_of_mapError heard)
  | removeHold item => exact covered.removeHold (ok_of_mapError heard)
  | addEdge item owner => exact covered.addEdge heard
  | removeEdge item owner => exact covered.removeEdge (ok_of_mapError heard)
  | _ => exact Except.ok.inj heard ▸ covered

theorem covered_counter (settings : Settings) : settings.counter.ledger.book.Covered := fun id known => by
  simp [Settings.counter, Ledger.book, Ledger.find?, Ledger.slot?] at known

/-- Skipping a settle loses nothing. At every point each tracked value is led to from one that is
held or pending. The way is through contents, those included that the counter still has to be told
of the loss of. With nothing pending all tracked values are live. -/
theorem tracked_led_to_from_held_or_pending (settings : Settings) (listener : Listener)
    {calls : List Call} (paired : (settings.world listener).Paired [] calls)
    (positive : ∀ item count, .addHolds item count ∈ calls → 1 ≤ count) (turn : Turn)
    (made : turn ∈ (settings.world listener).play [] calls) (answer : Answer)
    (answered : turn.result = .ok answer) :
    (∀ ref ∈ turn.after.counter.ledger.tracked, ∃ root ∈ turn.after.counter.ledger.tracked,
      (0 < turn.after.counter.ledger.held (.shared root) ∨
        turn.after.counter.ledger.isPending (.shared root)) ∧
      Relation.ReflTransGen (turn.after.heap.Retains turn.owed) root ref) ∧
    (turn.owed = [] →
      (∀ ref ∈ turn.after.counter.ledger.tracked, ∃ root ∈ turn.after.counter.ledger.tracked,
        (0 < turn.after.counter.ledger.held (.shared root) ∨
          turn.after.counter.ledger.isPending (.shared root)) ∧
        turn.after.heap.Leads root ref) ∧
      (turn.after.counter.ledger.hasPending = false → ∀ ref ∈ turn.after.counter.ledger.tracked,
        turn.after.counter.ledger.Live turn.after.heap ref)) := by
  obtain ⟨_, _, kept⟩ := Paired.invariant
    (fun world owed => world.Sound owed ∧ world.counter.ledger.book.Covered)
    (fun call => ∀ item count, call = .addHolds item count → 1 ≤ count)
    (fun _ _ _ _ _ ⟨sound, covered⟩ allowed positive performed =>
      ⟨sound.perform allowed performed, covered_perform sound covered allowed positive performed⟩)
    paired ⟨sound_world settings listener, covered_counter settings⟩
    (fun call member item count same => positive item count (same ▸ member)) turn made
  obtain ⟨sound, covered⟩ := kept answer answered
  refine ⟨sound.ledger.retains_of_covered covered, fun settled => ?_⟩
  rw [settled] at sound
  exact ⟨sound.ledger.leads_of_covered covered, sound.ledger.live_of_covered covered⟩

/-- The last call but one has let the two arrays go, and the first of them is pending. -/
def cycleRelease : Turn := (World.play {} [] cycleCalls).get ⟨10, by decide +kernel⟩

theorem tracked_led_to_from_held_or_pending_cycle :
    ∃ root ∈ cycleRelease.after.counter.ledger.tracked,
      (0 < cycleRelease.after.counter.ledger.held (.shared root) ∨
        cycleRelease.after.counter.ledger.isPending (.shared root)) ∧
      cycleRelease.after.heap.Leads root (.container 1) := by
  have positive : ∀ item count, Call.addHolds item count ∈ cycleCalls → 1 ≤ count := by
    intro item count member
    simp only [cycleCalls, List.mem_cons, reduceCtorEq, Call.addHolds.injEq, List.not_mem_nil,
      or_false, false_or] at member
    exact Nat.le_of_eq member.2.symm
  have led := tracked_led_to_from_held_or_pending {} .absent (by decide +kernel) positive
    cycleRelease (List.get_mem _ _) .done (by decide +kernel)
  exact (led.2 (by decide +kernel)).1 (.container 1) (by decide +kernel)

end World

end Reclaim
