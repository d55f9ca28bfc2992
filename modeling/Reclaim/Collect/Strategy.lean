/-! The two collection strategies, and the figures that a settle leaves behind. -/

set_option autoImplicit false

namespace Reclaim

inductive Strategy where
  /-- Trace the contents of containers from the held values; the rest is dead. -/
  | markSweep
  /-- Decide components of the owner graph in order, keeping the decomposition between settles. -/
  | incremental
  deriving DecidableEq, Repr

namespace Strategy

def all : List Strategy := [.markSweep, .incremental]

def name : Strategy → String
  | .markSweep => "mark-sweep"
  | .incremental => "incremental"

def ofName? (name : String) : Option Strategy :=
  all.find? (·.name == name)

theorem ofName?_name (strategy : Strategy) : ofName? strategy.name = some strategy := by
  cases strategy <;> decide

end Strategy

/-- What the latest settle did. `collected` says whether it ran a pass at all, and `rebuilt`
whether the pass had to decompose the owner graph again. -/
structure Stats where
  removed : Nat := 0
  retained : Nat := 0
  total : Nat := 0
  collected : Bool := false
  rebuilt : Bool := false
  deriving DecidableEq, Repr

def Stats.describe (stats : Stats) : String :=
  "SettleStats \x7b " ++
    s!"removed: {stats.removed}, retained: {stats.retained}, " ++
    s!"total_references: {stats.total}, collected: {stats.collected}, " ++
    s!"rebuilt_components: {stats.rebuilt}" ++ " \x7d"

end Reclaim
