import Reclaim.Proofs.Collect.Coloring
import Reclaim.Proofs.World.Unpaired

/-! Marking in runs of any calls. The counter keeps its queue between passes, and every pass finds it empty. -/

set_option autoImplicit false

namespace Reclaim

/-- The palette after a settle. A pass marks before it removes anything, so also if it fails then. -/
def Counter.repaint (counter : Counter) (heap : Heap) (palette : Palette) : Palette :=
  if counter.ledger.hasPending || counter.eager then
    match counter.strategy with
    | .markSweep => palette.mark counter.cleared.ledger heap
    | .incremental => palette
  else
    palette

namespace World

def repaint (world : World) (palette : Palette) : Call → Palette
  | .settle => world.counter.repaint world.heap palette
  | _ => palette

def paletteAfter (world : World) (palette : Palette) : List Call → Palette
  | [] => palette
  | call :: rest => (world.perform call).1.paletteAfter (world.repaint palette call) rest

variable {world : World} {palette : Palette}

theorem queue_repaint (empty : palette.queue = []) (call : Call) : (world.repaint palette call).queue = [] := by
  cases call with
  | settle =>
    show (world.counter.repaint world.heap palette).queue = []
    unfold Counter.repaint
    split
    next =>
      cases world.counter.strategy with
      | markSweep => exact palette.queue_mark world.counter.cleared.ledger world.heap
      | incremental => exact empty
    next => exact empty
  | _ => exact empty

theorem queue_paletteAfter (empty : palette.queue = []) (calls : List Call) :
    (world.paletteAfter palette calls).queue = [] := by
  induction calls generalizing world palette with
  | nil => exact empty
  | cons call rest ih => exact ih (queue_repaint empty call)

/-- Whatever has been called, the queue that the counter keeps is empty, and a pass marks from there in three
colors: before each turn of its loop these are in order, and it ends with nothing gray and all that is held
black. -/
theorem tricolor_marking (settings : Settings) (listener : Listener) (calls : List Call) :
    ((settings.world listener).paletteAfter {} calls).queue = [] ∧
      ((settings.world listener).paletteAfter {} calls).Marks
        ((settings.world listener).after calls).counter.cleared.ledger
        ((settings.world listener).after calls).heap := by
  have empty : ((settings.world listener).paletteAfter {} calls).queue = [] := queue_paletteAfter rfl calls
  exact ⟨empty, Palette.marks_of_empty _ _ empty⟩

end World

end Reclaim
