import Mathlib.Data.List.Infix
import Reclaim.Proofs.Arena.Collector
import Reclaim.Proofs.World.Listing

/-! Runs of any calls on a host whose computations check what they do. A run stops only because a count or a
block would be too large: no index is past the end of its array, nothing is taken below zero, and the
discovery numbers do not run out. Up to there the host shows the world. -/

set_option autoImplicit false

namespace Reclaim

structure Host where
  heap : Heap := {}
  collector : Collector := {}
  created : Nat := 0

/-- Remove a position of a list. One past the end is not looked at. -/
def Container.takeOut (index : Nat) : Container → Checked (Option Container)
  | .list kind items =>
    if index < items.length then do
      let _ ← readAt items.toArray index
      return some (.list kind (items.eraseIdx index))
    else return none
  | .map _ => return none

def Settings.host (settings : Settings) : Host where
  collector := { strategy := settings.strategy, eager := settings.eager }

namespace Host

def make (host : Host) (heap : Heap) : Host := { host with heap, created := host.created + 1 }

def count (host : Host) : Except LedgerError Collector → Host
  | .ok collector => { host with collector }
  | .error _ => host

def exchange (host : Host) (id : Ident) : Option Container → Host
  | some container => { host with heap := host.heap.setContainer id container }
  | none => host

def settle (host : Host) : Checked Host := do
  let outcome ← host.collector.settle host.heap
  return { host with heap := outcome.heap, collector := outcome.collector }

def answer (host : Host) : Call → Checked Host
  | .newContainer kind => return host.make (host.heap.newContainer host.created kind)
  | .newBuffer size => host.make <$> host.heap.allocate host.created size
  | .rentBuffer size => host.make <$> host.heap.borrow host.created size
  | .register item => do
    let collector ← host.collector.register item
    return { host with collector }
  | .addHolds item count => host.count <$> host.collector.addHolds item count
  | .removeHold item => host.count <$> host.collector.removeHold item
  | .addEdge item owner => host.count <$> host.collector.addEdge item owner
  | .removeEdge item owner => host.count <$> host.collector.removeEdge item owner
  | .settle => host.settle
  | .check | .listen _ | .get _ _ | .lookup _ _ => return host
  | .push id item => return host.exchange id ((host.heap.container id).push? item)
  | .set id index item => return host.exchange id (((host.heap.container id).set? index item).map (·.2))
  | .remove id index => host.exchange id <$> (host.heap.container id).takeOut index
  | .insert id key item => return host.exchange id (((host.heap.container id).insert? key item).map (·.2))
  | .removeKey id key => return host.exchange id (((host.heap.container id).removeKey? key).map (·.2))
  | .clear id => return host.exchange id (some (host.heap.container id).clear)
  | .modify id change =>
    let buffer := host.heap.buffer id
    return { host with
      heap := host.heap.setBuffer id { buffer with block := buffer.block.modify change } }

def perform (host : Host) (call : Call) : Checked Host :=
  if call.values.all host.heap.holds then host.answer call else return host

def run (host : Host) (calls : List Call) : Checked Host := calls.foldlM perform host

structure Shows (host : Host) (world : World) : Prop where
  heap : host.heap = world.heap
  collector : host.collector.Shows world.counter
  created : host.created = world.created
  covers : world.heap.Covers

variable {host : Host} {world : World} {few : Prop} {heap : Heap} {id : Ident} {container : Option Container}

theorem shows_start (settings : Settings) (listener : Listener) :
    settings.host.Shows (settings.world listener) := by
  have arena : Arena.Shows {} {} :=
    ⟨fun slot => by simp [Arena.occupant?], rfl, rfl, rfl, rfl, rfl, rfl⟩
  exact ⟨rfl, ⟨rfl, rfl, arena, rfl⟩, rfl, Heap.covers_empty⟩

namespace Shows

theorem make (shows : host.Shows world) (ref : Ident → Ref) (covers : heap.Covers) :
    (host.make heap).Shows (world.make ref heap).1 :=
  ⟨rfl, shows.collector, congrArg (· + 1) shows.created, covers⟩

theorem count (shows : host.Shows world) {result : Except LedgerError Collector}
    {counted : Except Failure Counter} (answers : Collector.Answers result counted) :
    (host.count result).Shows (world.count counted).1 := by
  cases result with
  | error error =>
    cases counted with
    | error failure => exact shows
    | ok counter => cases answers
  | ok collector =>
    cases counted with
    | error failure => cases answers
    | ok counter => exact ⟨shows.heap, answers, shows.created, shows.covers⟩

theorem settle (shows : host.Shows world) (valid : world.counter.ledger.Valid) (lists : world.counter.Lists) :
    Safe (world.counter.ledger.trackedCount < maxNumber) (·.Shows world.settle.1) host.settle := by
  unfold Host.settle
  rw [shows.heap]
  refine (shows.collector.settle valid lists shows.covers).bind fun outcome left => ?_
  exact ⟨left.heap, left.collector, shows.created, left.covers⟩

theorem exchange (shows : host.Shows world) {after : World}
    (same : after = match container with
      | some container => { world with heap := world.heap.setContainer id container }
      | none => world) : (host.exchange id container).Shows after := by
  subst same
  cases container with
  | none => exact shows
  | some container =>
    exact ⟨congrArg (·.setContainer id container) shows.heap, shows.collector, shows.created, shows.covers⟩

theorem safe_takeOut (container : Container) (index : Nat) :
    Safe few (· = (container.remove? index).map (·.2)) (container.takeOut index) := by
  unfold Container.takeOut Container.remove?
  cases container with
  | map entries => exact rfl
  | list kind items =>
    simp only
    split
    next inside =>
      have found : items.toArray[index]? = some items[index] := by simp [inside]
      refine (safe_readAt found).bind fun _ _ => ?_
      rw [List.getElem?_eq_getElem inside]
      exact rfl
    next outside =>
      rw [List.getElem?_eq_none (Nat.not_lt.mp outside)]
      exact rfl

theorem answer (shows : host.Shows world) (valid : world.counter.ledger.Valid) (lists : world.counter.Lists)
    (call : Call) :
    Safe (world.counter.ledger.trackedCount < maxNumber) (·.Shows (world.answer call).1) (host.answer call) := by
  have collector := shows.collector
  have exchanged {id : Ident} (taken : Option (Value × Container)) :
      (host.exchange id (taken.map (·.2))).Shows (world.exchange id taken).1 :=
    shows.exchange (by cases taken <;> rfl)
  unfold Host.answer World.answer
  rw [shows.heap, shows.created]
  cases call with
  | newContainer kind => exact shows.make .container shows.covers
  | newBuffer size =>
    refine Safe.map (Heap.safe_allocate shows.covers _ size) ?_
    rintro heap ⟨made, covers⟩
    simp only [made]
    exact shows.make .buffer covers
  | rentBuffer size =>
    refine Safe.map (Heap.safe_borrow shows.covers _ size) ?_
    rintro heap ⟨made, covers⟩
    simp only [made]
    exact shows.make .buffer covers
  | register item =>
    refine (collector.register valid item).bind fun next registered => ?_
    exact ⟨rfl, registered, rfl, shows.covers⟩
  | addHolds item count => exact (collector.addHolds valid item count).map fun _ => shows.count
  | removeHold item => exact (collector.removeHold valid item).map fun _ => shows.count
  | addEdge item owner => exact (collector.addEdge valid item owner).map fun _ => shows.count
  | removeEdge item owner => exact (collector.removeEdge valid item owner).map fun _ => shows.count
  | settle => exact shows.settle valid lists
  | check => exact shows
  | listen listener => exact ⟨shows.heap, shows.collector, shows.created, shows.covers⟩
  | push id item =>
    refine shows.exchange ?_
    simp only
    cases (world.heap.container id).push? item <;> rfl
  | get id index => exact shows
  | set id index item => exact exchanged _
  | remove id index =>
    refine (safe_takeOut (world.heap.container id) index).map ?_
    rintro _ rfl
    exact exchanged _
  | lookup id key => exact shows
  | insert id key item =>
    refine shows.exchange ?_
    simp only
    cases (world.heap.container id).insert? key item <;> rfl
  | removeKey id key => exact exchanged _
  | clear id => exact shows.exchange rfl
  | modify id change =>
    exact ⟨rfl, shows.collector, rfl, shows.covers.setBuffer rfl⟩

theorem perform (shows : host.Shows world) (valid : world.counter.ledger.Valid) (lists : world.counter.Lists)
    (call : Call) :
    Safe (world.counter.ledger.trackedCount < maxNumber) (·.Shows (world.perform call).1) (host.perform call) := by
  unfold Host.perform World.perform
  rw [shows.heap]
  split
  next => exact shows.answer valid lists call
  next => exact shows

end Shows

def Few (world : World) (calls : List Call) : Prop :=
  ∀ before, before <+: calls → (world.after before).counter.ledger.trackedCount < maxNumber

/-- Up to where it stops, a run on the host shows the run of the world. -/
theorem shows_after (settings : Settings) (listener : Listener) (calls : List Call) :
    Safe (Few (settings.world listener) calls) (·.Shows ((settings.world listener).after calls))
      (settings.host.run calls) := by
  induction calls using List.reverseRecOn with
  | nil => exact shows_start settings listener
  | append_singleton calls call ih =>
    have earlier : Few (settings.world listener) (calls ++ [call]) → Few (settings.world listener) calls :=
      fun few before leading => few before (leading.trans (List.prefix_append calls [call]))
    rw [run, List.foldlM_append, World.after_append]
    refine (ih.weaken earlier).bind fun host shows => ?_
    have performed := shows.perform (World.orderly_after settings listener calls).valid
      (World.lists_after settings listener calls) call
    rw [List.foldlM_cons]
    exact (performed.weaken fun few => few calls (List.prefix_append calls [call])).bind fun _ shows => shows

/-- Whatever is called, as long as fewer values are tracked at any time than there are discovery numbers, a
run comes to its end and shows what the world has come to, or an addition exceeds the largest count or a
buffer the largest block. -/
theorem run_stops_only_by_abort (settings : Settings) (listener : Listener) (calls : List Call)
    (few : ∀ before, before <+: calls →
      ((settings.world listener).after before).counter.ledger.trackedCount < 2 ^ 32 - 1) :
    (∃ last, settings.host.run calls = .ok last ∧ last.Shows ((settings.world listener).after calls)) ∨
      ∃ abort, settings.host.run calls = .error (.aborted abort) :=
  (shows_after settings listener calls).cases few

/-- Two arrays contain each other, and one of them a rented buffer. The first is let go once more than it is
held, and a settle collects all three. -/
def rentedCycleCalls : List Call :=
  let first : Value := .shared (.container 0)
  let second : Value := .shared (.container 1)
  let third : Value := .shared (.buffer 2)
  [.newContainer (.list .array), .newContainer (.list .array), .rentBuffer 8, .addHolds first 1,
    .push 0 second, .addEdge second first, .push 1 first, .addEdge first second, .push 1 third,
    .addEdge third second, .removeHold first, .removeHold first, .settle]

theorem few_rentedCycleCalls (strategy : Strategy) (before : List Call) (leading : before <+: rentedCycleCalls) :
    (({ strategy } : Settings).world .absent |>.after before).counter.ledger.trackedCount < 2 ^ 32 - 1 := by
  have each : ∀ before ∈ rentedCycleCalls.inits,
      (({ strategy } : Settings).world .absent |>.after before).counter.ledger.trackedCount < 2 ^ 32 - 1 := by
    cases strategy <;> decide +kernel
  exact each before ((List.mem_inits before rentedCycleCalls).mpr leading)

theorem run_rentedCycleCalls (strategy : Strategy) :
    ∃ last, ({ strategy } : Settings).host.run rentedCycleCalls = .ok last := by
  have ends : (({ strategy } : Settings).host.run rentedCycleCalls).isOk = true := by
    cases strategy <;> decide +kernel
  cases ended : ({ strategy } : Settings).host.run rentedCycleCalls with
  | ok last => exact ⟨last, rfl⟩
  | error trap =>
    rw [ended] at ends
    cases ends

theorem run_stops_only_by_abort_rented :
    (∃ last, ({} : Settings).host.run rentedCycleCalls = .ok last ∧
        last.Shows ((({} : Settings).world .absent).after rentedCycleCalls)) ∧
      ∃ last, ({ strategy := .incremental } : Settings).host.run rentedCycleCalls = .ok last ∧
        last.Shows ((({ strategy := .incremental } : Settings).world .absent).after rentedCycleCalls) := by
  have unaborted (strategy : Strategy) :
      ¬∃ abort, ({ strategy } : Settings).host.run rentedCycleCalls = .error (.aborted abort) := by
    obtain ⟨last, ended⟩ := run_rentedCycleCalls strategy
    rintro ⟨abort, stopped⟩
    cases ended.symm.trans stopped
  constructor
  · have ended := run_stops_only_by_abort {} .absent rentedCycleCalls (few_rentedCycleCalls .markSweep)
    exact ended.resolve_right (unaborted .markSweep)
  · have ended := run_stops_only_by_abort { strategy := .incremental } .absent rentedCycleCalls
      (few_rentedCycleCalls .incremental)
    exact ended.resolve_right (unaborted .incremental)

end Host

end Reclaim
