import Reclaim.Proofs.Identity.Collect
import Reclaim.Proofs.Replay.Effects

/-! Lines under other identities. A line that is not a settle does the same to both sessions or fails alike,
as long as the identity of a value that it makes is not the one of a value that matters. -/

set_option autoImplicit false

namespace Reclaim

variable {move : Ident → Ident} {known more : Ref → Prop}

theorem Container.Trades.among {before after : Container} {gains losses : List Value}
    (trades : before.Trades after gains losses) (old : ∀ child ∈ before.children, child.Among known)
    (new : ∀ child ∈ gains, child.Among known) :
    (∀ child ∈ after.children, child.Among known) ∧ ∀ child ∈ losses, child.Among known := by
  have all : ∀ child ∈ losses ++ after.children, child.Among known := by
    intro child member
    rcases List.mem_append.mp (trades.mem_iff.mp member) with gained | kept
    · exact new child gained
    · exact old child kept
  exact ⟨fun child member => all child (List.mem_append_right losses member),
    fun child member => all child (List.mem_append_left after.children member)⟩

theorem Ledger.Renames.mono {ledger other : Ledger} (renames : ledger.Renames move known other)
    (included : ∀ ref, known ref → more ref) : ledger.Renames move more other :=
  { renames with within := fun slot entry found => included _ (renames.within slot entry found) }

namespace Heap.Renames

variable {heap other : Heap} (renames : heap.Renames move known other)

include renames

theorem newContainer (own : Ident) (kind : Kind)
    (apart : Apart move fun ref => ref = .container own ∨ known ref) :
    (heap.newContainer own kind).Renames move (fun ref => ref = .container own ∨ known ref)
      (other.newContainer (move own) kind) where
  container owner owns := by
    unfold Heap.newContainer
    rw [container_setContainer, container_setContainer]
    by_cases same : own = owner
    · rw [if_pos same, if_pos (congrArg move same), Container.empty_rename]
    · have elsewhere : ¬ move own = move owner := fun clash => same (apart _ _ (.inl rfl) owns clash)
      rw [if_neg same, if_neg elsewhere]
      refine renames.container owner (owns.resolve_left fun new => same ?_)
      exact (Ref.container.inj new).symm
  closed owner owns := by
    unfold Heap.newContainer
    rw [container_setContainer]
    split
    next => simp
    next elsewhere =>
      have here := owns.resolve_left fun new => elsewhere (Ref.container.inj new).symm
      exact fun child member => (renames.closed owner here child member).mono fun _ => .inr

theorem newBuffer (own : Ident) (size : Nat) : Echoes id (Renames move fun ref => ref = .buffer own ∨ known ref)
    (heap.newBuffer own size) (other.newBuffer (move own) size) := by
  unfold Heap.newBuffer
  split
  · refine ⟨fun owner owns => renames.container owner (owns.resolve_left fun new => nomatch new), ?_⟩
    intro owner owns child member
    have here := owns.resolve_left fun new => nomatch new
    exact (renames.closed owner here child member).mono fun _ => .inr
  · exact rfl

end Heap.Renames

namespace Session

variable {session other : Session} {line : Nat} {name : String} {item : Value} {id : Ident}
  {content : Container}

structure Renames (move : Ident → Ident) (known : Ref → Prop) (session other : Session) : Prop where
  counter : session.counter.Renames move known other.counter
  heap : session.heap.Renames move known other.heap
  bindings : ∀ name : String, other.bindings[name]? = session.bindings[name]?.map (·.rename move)
  bound : ∀ (name : String) (value : Value), session.bindings[name]? = some value → value.Among known
  origins : ∀ ref, known ref → other.origins[move ref.id]? = session.origins[ref.id]?
  budget : other.budget = session.budget
  created : other.created = session.created
  identify : other.identify = move ∘ session.identify

namespace Renames

variable (renames : session.Renames move known other)

include renames

theorem nextIdent : other.nextIdent = move session.nextIdent := by
  rw [Session.nextIdent, renames.identify, renames.created]
  rfl

theorem lookup (name : String) : Echoes (Fault.rename move)
    (fun value value' => value' = value.rename move ∧ value.Among known)
    (session.lookup line name) (other.lookup line name) := by
  unfold Session.lookup
  rw [renames.bindings]
  cases found : session.bindings[name]? with
  | none => exact rfl
  | some value => exact ⟨rfl, renames.bound name value found⟩

theorem container (name : String) (expected : Expected) : Echoes (Fault.rename move)
    (fun pair pair' => pair' = (move pair.1, pair.2.rename move) ∧ known (.container pair.1) ∧
      ∀ child ∈ pair.2.children, child.Among known)
    (session.container line name expected) (other.container line name expected) := by
  refine (renames.lookup name).bind ?_
  rintro value _ ⟨rfl, among⟩
  rw [renames.heap.kindName among]
  match value, among with
  | .scalar _, _ | .shared (.buffer _), _ => exact rfl
  | .shared (.container id), here =>
    -- A name is bound to known values only, so the contents under the other identity are the same.
    simp only [Value.rename, Ref.rename, Value.container?, renames.heap.container id here,
      Container.kind_rename]
    split
    · exact ⟨rfl, here, renames.heap.closed id here⟩
    · exact rfl

theorem bind (name : String) (among : item.Among known) :
    (session.bind name item).Renames move known (other.bind name (item.rename move)) :=
  { renames with
    bindings := fun place => by
      simp only [Session.bind, Std.ExtTreeMap.getElem?_insert, renames.bindings]
      split <;> rfl
    bound := fun place value found => by
      simp only [Session.bind, Std.ExtTreeMap.getElem?_insert] at found
      split at found
      · cases found
        exact among
      · exact renames.bound place value found }

theorem count {change change' : Counter → Except Failure Counter}
    (told : Echoes (Failure.rename move) (Counter.Renames move known) (change session.counter)
      (change' other.counter)) :
    Echoes (Fault.rename move) (Renames move known) (session.count line change) (other.count line change') := by
  unfold Session.count
  obtain ⟨failure, failed, failed'⟩ | ⟨counter, counter', done, done', counters⟩ := told.cases
  · rw [failed, failed']
    cases failure <;> exact rfl
  · rw [done, done']
    exact { renames with counter := counters }

variable (apart : Apart move known)

include apart

theorem setContainer (here : known (.container id))
    (among : ∀ child ∈ content.children, child.Among known) :
    (session.setContainer id content).Renames move known (other.setContainer (move id) (content.rename move)) :=
  { renames with heap := renames.heap.setContainer apart here among }

section Children

variable (here : known (.container id))

include here

theorem gain (among : item.Among known) : Echoes (Fault.rename move) (Renames move known)
    (session.gain line id item) (other.gain line (move id) (item.rename move)) :=
  renames.count (renames.counter.addEdge apart among here)

theorem lose (among : item.Among known) : Echoes (Fault.rename move) (Renames move known)
    (session.lose line id item) (other.lose line (move id) (item.rename move)) :=
  renames.count (renames.counter.removeEdge apart among here)

theorem loseAll {children : List Value} (among : ∀ child ∈ children, child.Among known) :
    Echoes (Fault.rename move) (Renames move known) (session.loseAll line id children)
      (other.loseAll line (move id) (children.map (·.rename move))) := by
  induction children generalizing session other with
  | nil => exact renames
  | cons child rest ih =>
    refine (renames.lose apart here (among child List.mem_cons_self)).bind fun next next' later => ?_
    exact ih later fun child member => among child (List.mem_cons_of_mem _ member)

end Children

theorem push (name : String) (count : Nat) : Echoes (Fault.rename move) (Renames move known)
    (session.push line name count) (other.push line name count) := by
  refine (renames.lookup name).bind ?_
  rintro item _ ⟨rfl, among⟩
  exact renames.count (renames.counter.addHolds apart among)

theorem pop (name : String) : Echoes (Fault.rename move) (Renames move known)
    (session.pop line name) (other.pop line name) := by
  refine (renames.lookup name).bind ?_
  rintro item _ ⟨rfl, among⟩
  exact renames.count (renames.counter.removeHold apart among)

theorem append (owner child : String) : Echoes (Fault.rename move) (Renames move known)
    (session.append line owner child) (other.append line owner child) := by
  refine (renames.container owner .list).bind ?_
  rintro ⟨id, container⟩ _ ⟨rfl, here, children⟩
  refine (renames.lookup child).bind ?_
  rintro item _ ⟨rfl, among⟩
  have filled : ∀ child ∈ ((container.push? item).getD container).children, child.Among known := by
    cases pushed : container.push? item with
    | none => exact children
    | some next =>
      refine (Container.trades_push? pushed).among children ?_ |>.1
      simpa using among
  simp only [Container.push?_rename, Option.getD_map]
  exact (renames.setContainer apart here filled).gain apart here among

theorem set (owner : String) (index : Nat) (child : String) : Echoes (Fault.rename move) (Renames move known)
    (session.set line owner index child) (other.set line owner index child) := by
  refine (renames.container owner .list).bind ?_
  rintro ⟨id, container⟩ _ ⟨rfl, here, children⟩
  refine (renames.lookup child).bind ?_
  rintro item _ ⟨rfl, among⟩
  simp only [Container.set?_rename]
  cases replaced : container.set? index item with
  | none => exact rfl
  | some pair =>
    obtain ⟨old, next⟩ := pair
    obtain ⟨filled, lost⟩ := (Container.trades_set? replaced).among children (by simpa using among)
    have changed := renames.setContainer apart here filled
    refine (changed.gain apart here among).bind fun middle middle' later => ?_
    exact later.lose apart here (lost old (by simp))

theorem put (owner key child : String) : Echoes (Fault.rename move) (Renames move known)
    (session.put line owner key child) (other.put line owner key child) := by
  refine (renames.container owner .map).bind ?_
  rintro ⟨id, container⟩ _ ⟨rfl, here, children⟩
  refine (renames.lookup child).bind ?_
  rintro item _ ⟨rfl, among⟩
  simp only [Container.insert?_rename]
  cases inserted : container.insert? (encodeText key) item with
  | none =>
    have same := renames.setContainer apart here children
    refine (same.gain apart here among).bind fun middle middle' later => ?_
    exact later.loseAll apart here fun _ member => nomatch member
  | some pair =>
    obtain ⟨old, next⟩ := pair
    obtain ⟨filled, lost⟩ := (Container.trades_insert? inserted).among children (by simpa using among)
    simp only [Option.map_some, Option.getD_some, Prod.map_apply]
    have changed := renames.setContainer apart here filled
    refine (changed.gain apart here among).bind fun middle middle' later => ?_
    simpa only [Option.toList_map] using later.loseAll apart here lost

theorem remove (owner : String) (index : Nat) : Echoes (Fault.rename move) (Renames move known)
    (session.remove line owner index) (other.remove line owner index) := by
  refine (renames.container owner .list).bind ?_
  rintro ⟨id, container⟩ _ ⟨rfl, here, children⟩
  simp only [Container.remove?_rename]
  cases removed : container.remove? index with
  | none => exact rfl
  | some pair =>
    obtain ⟨old, next⟩ := pair
    obtain ⟨filled, lost⟩ := (Container.trades_remove? removed).among children fun _ member => nomatch member
    exact (renames.setContainer apart here filled).lose apart here (lost old (by simp))

theorem delete (owner key : String) : Echoes (Fault.rename move) (Renames move known)
    (session.delete line owner key) (other.delete line owner key) := by
  refine (renames.container owner .map).bind ?_
  rintro ⟨id, container⟩ _ ⟨rfl, here, children⟩
  simp only [Container.removeKey?_rename]
  cases removed : container.removeKey? (encodeText key) with
  | none => exact rfl
  | some pair =>
    obtain ⟨old, next⟩ := pair
    obtain ⟨filled, lost⟩ :=
      (Container.trades_removeKey? removed).among children fun _ member => nomatch member
    exact (renames.setContainer apart here filled).lose apart here (lost old (by simp))

theorem clear (owner : String) : Echoes (Fault.rename move) (Renames move known)
    (session.clear line owner) (other.clear line owner) := by
  refine (renames.container owner .container).bind ?_
  rintro ⟨id, container⟩ _ ⟨rfl, here, children⟩
  have emptied : ∀ child ∈ container.clear.children, child.Among known := by simp
  simp only [Container.clear_rename, Container.children_rename]
  exact (renames.setContainer apart here emptied).loseAll apart here children

end Renames

def Grown (session : Session) (known : Ref → Prop) (op : Op) (ref : Ref) : Prop :=
  (∃ name, session.naming op = some (ref, name)) ∨ known ref

def Matches (move : Ident → Ident) (known : Ref → Prop) (first second : Session × Option Report) : Prop :=
  second.2 = first.2 ∧ first.1.Renames move known second.1

theorem grown_of_idle {op : Op} (idle : session.naming op = none) : session.Grown known op = known := by
  funext ref
  simp [Grown, idle]

theorem grown_of_naming {op : Op} {made : Ref} (named : session.naming op = some (made, name)) :
    session.Grown known op = fun ref => ref = made ∨ known ref := by
  funext ref
  simp [Grown, named, eq_comm]

theorem quiet_matches {result result' : Except Fault Session}
    (echoes : Echoes (Fault.rename move) (Renames move known) result result') :
    Echoes (Fault.rename move) (Matches move known) (quiet result).outcome (quiet result').outcome :=
  echoes.map fun _ _ renames => ⟨rfl, renames⟩

namespace Renames

variable (renames : session.Renames move known other)

include renames

theorem create {ref : Ref} {heap heap' : Heap} (name : String)
    (apart : Apart move fun other => other = ref ∨ known other)
    (heaps : heap.Renames move (fun other => other = ref ∨ known other) heap') :
    (session.create ref name heap).Renames move (fun other => other = ref ∨ known other)
      (other.create (ref.rename move) name heap') where
  counter := by
    have grown : session.counter.Renames move (fun other => other = ref ∨ known other) other.counter :=
      { renames.counter with ledger := renames.counter.ledger.mono fun _ => .inr }
    exact grown.register apart (.inl rfl)
  heap := heaps
  bindings place := by
    simp only [Session.create, Std.ExtTreeMap.getElem?_insert, renames.bindings]
    split <;> rfl
  bound place value found := by
    simp only [Session.create, Std.ExtTreeMap.getElem?_insert] at found
    split at found
    · cases found
      exact .inl rfl
    · exact (renames.bound place value found).mono fun _ => .inr
  -- The new value is apart from the known ones, so its name replaces none of theirs.
  origins own here := by
    simp only [Session.create, Ref.id_rename, getElem?_insert_key]
    by_cases same : ref.id = own.id
    · rw [if_pos same, if_pos (congrArg move same)]
    · have elsewhere : ¬ move ref.id = move own.id := fun clash => same (apart _ _ (.inl rfl) here clash)
      rw [if_neg same, if_neg elsewhere]
      exact renames.origins own (here.resolve_left fun new => same (congrArg Ref.id new.symm))
  budget := renames.budget
  created := congrArg (· + 1) renames.created
  identify := renames.identify

theorem newContainer (kind : Kind) (name : String)
    (grown : Apart move fun ref => ref = .container session.nextIdent ∨ known ref) :
    (session.newContainer kind name).Renames move
      (fun ref => ref = .container session.nextIdent ∨ known ref) (other.newContainer kind name) := by
  unfold Session.newContainer
  rw [renames.nextIdent]
  exact renames.create name grown (renames.heap.newContainer session.nextIdent kind grown)

theorem newBuffer (name : String) (size : Nat) (grown : ∀ next, other.newBuffer name size = .ok next →
      Apart move fun ref => ref = .buffer session.nextIdent ∨ known ref) :
    Echoes (Fault.rename move) (Renames move fun ref => ref = .buffer session.nextIdent ∨ known ref)
      (session.newBuffer name size) (other.newBuffer name size) := by
  unfold Session.newBuffer at grown ⊢
  dsimp only at grown ⊢
  rw [renames.nextIdent] at grown ⊢
  obtain ⟨abort, failed, failed'⟩ | ⟨heap, heap', made, made', heaps⟩ :=
    (renames.heap.newBuffer session.nextIdent size).cases
  · rw [failed, failed']
    exact rfl
  · rw [made'] at grown ⊢
    rw [made]
    exact renames.create name (grown _ rfl) heaps

/-- A line that is not a settle. Only if it is carried out does it matter which identity it has chosen. -/
theorem busy {op : Op} (apart : Apart move known)
    (grown : ∀ pair, (other.step ⟨line, op⟩).outcome = .ok pair → Apart move (session.Grown known op))
    (busy : op ≠ .settle) : Echoes (Fault.rename move) (Matches move (session.Grown known op))
      (session.step ⟨line, op⟩).outcome (other.step ⟨line, op⟩).outcome := by
  cases op with
  | settle => exact absurd rfl busy
  | newContainer kind name =>
    have named : session.naming (.newContainer kind name) = some (.container session.nextIdent, name) := rfl
    rw [grown_of_naming named] at grown ⊢
    exact quiet_matches (renames.newContainer kind name (grown _ rfl))
  | newBuffer name size =>
    have named : session.naming (.newBuffer name size) = some (.buffer session.nextIdent, name) := rfl
    rw [grown_of_naming named] at grown ⊢
    refine quiet_matches (renames.newBuffer name size fun next made => grown (next, none) ?_)
    show (quiet (other.newBuffer name size)).outcome = .ok (next, none)
    rw [made]
    rfl
  -- The other lines make nothing, so that what is known stays as it is.
  | int name value =>
    rw [grown_of_idle rfl]
    have among : Value.Among known (.scalar (.integer value)) := trivial
    exact quiet_matches (renames.bind name among)
  | bytes name text =>
    rw [grown_of_idle rfl]
    have among : Value.Among known (.scalar (.bytes (encodeText text))) := trivial
    exact quiet_matches (renames.bind name among)
  | push name count =>
    rw [grown_of_idle rfl]
    exact quiet_matches (renames.push apart name count)
  | pop name =>
    rw [grown_of_idle rfl]
    exact quiet_matches (renames.pop apart name)
  | append owner child =>
    rw [grown_of_idle rfl]
    exact quiet_matches (renames.append apart owner child)
  | set owner index child =>
    rw [grown_of_idle rfl]
    exact quiet_matches (renames.set apart owner index child)
  | put owner key child =>
    rw [grown_of_idle rfl]
    exact quiet_matches (renames.put apart owner key child)
  | remove owner index =>
    rw [grown_of_idle rfl]
    exact quiet_matches (renames.remove apart owner index)
  | delete owner key =>
    rw [grown_of_idle rfl]
    exact quiet_matches (renames.delete apart owner key)
  | clear owner =>
    rw [grown_of_idle rfl]
    exact quiet_matches (renames.clear apart owner)

end Renames

end Session

end Reclaim
