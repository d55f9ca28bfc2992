import Reclaim.Budget
import Reclaim.Collect.Counter

/-! How a run is set up. -/

set_option autoImplicit false

namespace Reclaim

structure Settings where
  strategy : Strategy := .markSweep
  eager : Bool := false
  budget : Budget := {}
  deriving DecidableEq, Repr

def Settings.counter (settings : Settings) : Counter where
  strategy := settings.strategy
  eager := settings.eager

end Reclaim
