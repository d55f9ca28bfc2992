import Reclaim.Proofs.Ledger.Total
import Reclaim.Proofs.Plain.Machine
import Reclaim.Proofs.Replay.Soundness

/-! What a session looks like without its ledger. Every account is a cell, and what the total counts
besides the cells are the holds on scalars. -/

set_option autoImplicit false

namespace Reclaim

def Heap.content? (heap : Heap) : Ref → Option Container
  | .container id => some (heap.container id)
  | .buffer _ => none

theorem Heap.children_content? {heap : Heap} (ref : Ref) :
    ((heap.content? ref).map Container.children).getD [] = heap.children ref := by
  cases ref <;> rfl

namespace Session

variable {session : Session} {line : Nat} {id : Ident} {ref : Ref}

abbrev book (session : Session) : Book := session.counter.ledger.book

def plain (session : Session) : Machine where
  cells id := (session.book.item? id).map fun item =>
    { name := (session.origins[id]?).getD ""
      held := session.book.heldBy id
      content := session.heap.content? item }
  scalars := session.book.scalarHolds session.heap session.created []
  bindings := session.bindings
  created := session.created

/-- Shared values that a name is bound to have accounts, and what has none is empty. -/
structure Known (session : Session) : Prop where
  entered : ∀ (name : String) (ref : Ref), session.bindings[name]? = some (.shared ref) →
    session.book.item? ref.id = some ref
  childless : ∀ id, session.book.item? id = none → (session.heap.container id).length = 0

structure Tracks (session : Session) : Prop extends session.Sound, session.Known

theorem cells_plain : session.plain.cells id = (session.book.item? id).map fun item =>
    { name := (session.origins[id]?).getD ""
      held := session.book.heldBy id
      content := session.heap.content? item } := rfl

theorem plain_eq {next : Session} {machine : Machine}
    (cells : ∀ id, machine.cells id = next.plain.cells id)
    (scalars : machine.scalars = next.plain.scalars)
    (bindings : machine.bindings = next.bindings) (created : machine.created = next.created) :
    machine = next.plain :=
  Machine.ext (funext cells) scalars bindings created

theorem held_plain : session.plain.held id = session.book.heldBy id := by
  unfold Machine.held plain Book.item? Book.heldBy
  cases known : session.book.account id <;> simp [known]

theorem isSome_cells : (session.plain.cells id).isSome = (session.book.item? id).isSome :=
  Option.isSome_map

theorem scalars_plain : session.plain.scalars =
    session.book.total - session.book.loads session.heap session.created := by
  simp [plain, Book.scalarHolds, Due.shortfall]

namespace Sound

theorem present (sound : session.Sound) (tracked : ref ∈ session.counter.ledger.tracked) :
    session.heap.holds (.shared ref) :=
  sound.counter.ledger.present ref tracked

theorem item?_eq_some (sound : session.Sound) :
    session.book.item? id = some ref ↔ ref ∈ session.counter.ledger.tracked ∧ ref.id = id := by
  constructor
  · intro known
    obtain ⟨account, present, rfl⟩ := Option.map_eq_some_iff.mp known
    obtain ⟨same, tracked⟩ := sound.counter.ledger.valid.tracked_of_account present
    exact ⟨tracked, same⟩
  · rintro ⟨tracked, rfl⟩
    obtain ⟨account, present, same⟩ := sound.counter.ledger.valid.mem_tracked_iff.mp tracked
    rw [Book.item?_eq present, same]

theorem item?_of_tracked (sound : session.Sound) (tracked : ref ∈ session.counter.ledger.tracked) :
    session.book.item? ref.id = some ref :=
  sound.item?_eq_some.mpr ⟨tracked, rfl⟩

theorem item?_created (sound : session.Sound) : session.book.item? session.created = none := by
  apply Option.eq_none_iff_forall_ne_some.mpr
  intro ref known
  obtain ⟨tracked, same⟩ := sound.item?_eq_some.mp known
  exact Nat.ne_of_lt (sound.counter.ledger.formed.lt ref (sound.present tracked)) same

theorem heldBy_created (sound : session.Sound) : session.book.heldBy session.created = 0 := by
  have unknown := Book.item?_eq_none.mp sound.item?_created
  simp [Book.heldBy, unknown]

end Sound

theorem content_plain (known : session.book.item? id = some ref) :
    session.plain.content id = session.heap.content? ref := by
  simp [Machine.content, plain, known]

theorem children_plain (known : session.book.item? id = some ref) :
    session.plain.children id = session.heap.children ref := by
  rw [Machine.children, content_plain known]
  exact Heap.children_content? ref

namespace Sound

theorem mem_idents (sound : session.Sound) :
    id ∈ session.plain.idents ↔ (session.book.item? id).isSome := by
  rw [Machine.idents, List.mem_filter, isSome_cells, List.mem_range]
  apply and_iff_right_of_imp
  intro known
  obtain ⟨ref, known⟩ := Option.isSome_iff_exists.mp known
  obtain ⟨tracked, rfl⟩ := sound.item?_eq_some.mp known
  exact sound.counter.ledger.formed.lt _ (sound.present tracked)

theorem mem_idents_iff (sound : session.Sound) :
    id ∈ session.plain.idents ↔ ∃ ref ∈ session.counter.ledger.tracked, ref.id = id := by
  simp only [sound.mem_idents, Option.isSome_iff_exists, sound.item?_eq_some]

theorem idents_perm (sound : session.Sound) :
    session.plain.idents.Perm (session.counter.ledger.tracked.map Ref.id) := by
  have nodup := sound.counter.ledger.nodup_ids sound.counter.ledger.valid.nodup_tracked
    fun ref => sound.present
  apply (List.perm_ext_iff_of_nodup Machine.nodup_idents nodup).mpr
  intro id
  rw [sound.mem_idents_iff, List.mem_map]

theorem length_idents (sound : session.Sound) :
    session.plain.idents.length = session.counter.ledger.trackedCount := by
  rw [sound.idents_perm.length_eq, List.length_map, Ledger.length_tracked]

end Sound

namespace Tracks

theorem load_plain (tracks : session.Tracks) (id : Ident) :
    session.plain.held id + (session.plain.children id).length =
      session.book.load session.heap id := by
  rw [held_plain, Book.load]
  congr 1
  cases known : session.book.item? id with
  | none =>
    have empty : session.plain.children id = [] := by
      simp [Machine.children, Machine.content, plain, known]
    rw [empty, tracks.childless id known, List.length_nil]
  | some ref =>
    obtain ⟨tracked, rfl⟩ := tracks.item?_eq_some.mp known
    rw [children_plain known, Heap.length_children,
      tracks.counter.ledger.length_container (tracks.present tracked)]

/-- The total counts the holds on tracked values, their contents and the holds on scalars. -/
theorem total_eq (tracks : session.Tracks) : (session.counter.ledger.total : Int) =
    (session.counter.ledger.tracked.map fun ref => session.counter.ledger.held (.shared ref)).sum +
      (session.counter.ledger.tracked.map session.heap.childCount).sum + session.plain.scalars := by
  have loads : session.book.loads session.heap session.created = _ :=
    tracks.counter.ledger.loads_eq fun id unknown => tracks.childless id (Book.item?_eq_none.mpr unknown)
  have total : session.book.total = session.counter.ledger.total := rfl
  rw [scalars_plain, loads, total, List.sum_map_add]
  omega

theorem total_plain (tracks : session.Tracks) :
    session.plain.total = session.counter.ledger.total := by
  have loads : (session.plain.idents.map fun id =>
      session.plain.held id + (session.plain.children id).length).sum =
        session.book.loads session.heap session.created := by
    simp only [tracks.load_plain]
    apply sum_map_eq_sum_range Machine.nodup_idents
    · intro id member
      exact List.mem_range.mp (List.mem_filter.mp member).1
    · intro id outside
      rw [tracks.mem_idents, Option.not_isSome_iff_eq_none] at outside
      have unheld := Book.item?_eq_none.mp outside
      simp [Book.load, Book.heldBy, unheld, tracks.childless id outside]
  have total : session.book.total = session.counter.ledger.total := rfl
  rw [Machine.total, loads, scalars_plain, total]
  omega

theorem check_plain (tracks : session.Tracks) (budget : Budget) :
    session.plain.check budget = budget.check session.counter.ledger := by
  rw [Machine.check, Budget.check, tracks.total_plain, Int.toNat_natCast, tracks.length_idents]

theorem mem_roots (tracks : session.Tracks) : id ∈ session.plain.roots ↔
    ∃ ref ∈ session.counter.ledger.tracked, ref.id = id ∧
      0 < session.counter.ledger.held (.shared ref) := by
  rw [Machine.roots, List.mem_filter, tracks.mem_idents_iff, held_plain, decide_eq_true_iff]
  constructor
  · rintro ⟨⟨ref, tracked, rfl⟩, held⟩
    exact ⟨ref, tracked, rfl, tracks.counter.ledger.heldBy_eq ref ▸ held⟩
  · rintro ⟨ref, tracked, rfl, held⟩
    exact ⟨⟨ref, tracked, rfl⟩, (tracks.counter.ledger.heldBy_eq ref).symm ▸ held⟩

end Tracks

namespace Sound

theorem mem_graph (sound : session.Sound) : id ∈ session.plain.graph.nodes ↔
    ∃ ref ∈ session.counter.ledger.tracked, ref.id = id := by
  rw [← sound.mem_idents_iff, Machine.graph, Std.ExtTreeSet.mem_ofList, List.contains_iff_mem]

theorem reach_of_leads (sound : session.Sound) {root : Ref}
    (rooted : root ∈ session.counter.ledger.tracked) (path : session.heap.Leads root ref) :
    session.plain.graph.Reach root.id ref.id := by
  induction path with
  | refl => exact .refl (sound.mem_graph.mpr ⟨root, rooted, rfl⟩)
  | @tail owner item _ contains ih =>
    obtain ⟨ownerTracked, tracked⟩ := sound.counter.ledger.tracked_of_contains contains
    apply ih.tail
    refine ⟨sound.mem_graph.mpr ⟨owner, ownerTracked, rfl⟩, sound.mem_graph.mpr ⟨item, tracked, rfl⟩, ?_⟩
    simp only [Machine.graph, children_plain (sound.item?_of_tracked ownerTracked)]
    exact List.mem_filterMap.mpr ⟨_, contains, rfl⟩

theorem leads_of_reach (sound : session.Sound) {root : Ref} {last : Ident}
    (rooted : root ∈ session.counter.ledger.tracked)
    (path : session.plain.graph.Reach root.id last) :
    ∃ ref ∈ session.counter.ledger.tracked, ref.id = last ∧ session.heap.Leads root ref := by
  induction path with
  | refl => exact ⟨root, rooted, rfl, .refl⟩
  | tail _ edge ih =>
    obtain ⟨owner, ownerTracked, rfl, path⟩ := ih
    have listed := edge.listed
    simp only [Machine.graph, children_plain (sound.item?_of_tracked ownerTracked)] at listed
    obtain ⟨child, contains, same⟩ := List.mem_filterMap.mp listed
    cases child with
    | scalar atom => cases same
    | shared item =>
      cases same
      exact ⟨item, (sound.counter.ledger.tracked_of_contains contains).2, rfl, path.tail contains⟩

end Sound

theorem Tracks.live_plain (tracks : session.Tracks) (tracked : ref ∈ session.counter.ledger.tracked) :
    session.plain.Live ref.id ↔ session.counter.ledger.Live session.heap ref := by
  constructor
  · rintro ⟨_, rooted, path⟩
    obtain ⟨root, rootTracked, rfl, held⟩ := tracks.mem_roots.mp rooted
    obtain ⟨other, otherTracked, same, leads⟩ := tracks.leads_of_reach rootTracked path
    obtain rfl := tracks.counter.ledger.formed.inj other ref (tracks.present otherTracked)
      (tracks.present tracked) same
    exact ⟨root, rootTracked, held, leads⟩
  · rintro ⟨root, rootTracked, held, path⟩
    exact ⟨root.id, tracks.mem_roots.mpr ⟨root, rootTracked, rfl, held⟩,
      tracks.reach_of_leads rootTracked path⟩

theorem lookup_plain (name : String) :
    session.plain.lookup line name = session.lookup line name := rfl

theorem Tracks.container_plain (tracks : session.Tracks) (name : String) (expected : Expected) :
    session.plain.container line name expected = session.container line name expected := by
  rw [Machine.container, Session.container, lookup_plain]
  cases found : session.lookup line name with
  | error fault => rfl
  | ok value =>
    cases value with
    | scalar atom => rfl
    | shared ref =>
      have content := content_plain (tracks.entered name ref (lookup_ok found))
      cases ref with
      | container id =>
        have content : session.plain.content id = some (session.heap.container id) := content
        simp [Value.id?, Value.container?, Machine.kindName, content, Bind.bind, Except.bind, Heap.kindName,
          Ref.id]
      | buffer id =>
        have content : session.plain.content id = none := content
        simp [Value.id?, Value.container?, Machine.kindName, content, Bind.bind, Except.bind, Heap.kindName,
          Ref.id]

theorem tracks_session (settings : Settings) : settings.session.Tracks where
  toSound := sound_session settings
  entered name ref named := by simp [Settings.session] at named
  childless id _ := by simp [Settings.session, Heap.container, Container.length, Container.empty]

theorem plain_session (settings : Settings) : settings.session.plain = {} :=
  Machine.ext (funext fun _ => rfl) rfl rfl rfl

end Session

end Reclaim
