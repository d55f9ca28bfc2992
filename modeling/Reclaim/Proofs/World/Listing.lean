import Reclaim.Proofs.Collect.Listing
import Reclaim.Proofs.World.Unpaired

/-! The cached components in runs of any calls: they list the slots in use. -/

set_option autoImplicit false

namespace Reclaim

namespace Counter

variable {counter next : Counter} {heap : Heap} {call : Call}

theorem Hears.lists (hears : counter.Hears heap call next) (valid : counter.ledger.Valid)
    (lists : counter.Lists) : next.Lists := by
  cases hears with
  | register item => exact lists.register valid item
  | addHolds added => exact lists.addHolds valid added
  | removeHold removed =>
    obtain ⟨ledger, result, rfl⟩ := removeHold_ok removed
    exact ⟨fun components present =>
      (lists.cached components present).congr (Ledger.ownersAt?_removeHold result), lists.uncached⟩
  | addEdge added =>
    obtain ⟨ledger, _, rfl⟩ := addEdge_ok added
    exact lists_relink
  | removeEdge removed =>
    obtain ⟨ledger, _, rfl⟩ := removeEdge_ok removed
    exact lists_relink
  | settle => exact lists.settle valid

end Counter

namespace World

theorem lists_after (settings : Settings) (listener : Listener) (calls : List Call) :
    ((settings.world listener).after calls).counter.Lists := by
  have step {counter next : Counter} {heap : Heap} {call : Call} (hears : counter.Hears heap call next)
      (keeps : counter.Orderly ∧ counter.Lists) : next.Orderly ∧ next.Lists :=
    ⟨hears.orderly keeps.1, hears.lists keeps.1.valid keeps.2⟩
  have start : settings.counter.Orderly ∧ settings.counter.Lists :=
    ⟨orderly_after settings listener [], fun _ present => (nomatch present), fun _ => rfl⟩
  exact (after_induction calls start fun _ _ _ _ => step).2

end World

end Reclaim
