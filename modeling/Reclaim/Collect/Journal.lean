import Reclaim.Collect.Strategy

/-! The journal of a run: what its settles log, in order. -/

set_option autoImplicit false

namespace Reclaim

inductive LogLevel where
  | debug
  | trace
  deriving DecidableEq, Repr

inductive LogRecord where
  /-- A pass ended. -/
  | settled (strategy : Strategy) (stats : Stats)
  /-- The owner graph was decomposed again. -/
  | rebuilt (components tracked : Nat)
  /-- A settle of a script succeeded. -/
  | reported (strategy : Strategy) (line : Nat) (stats : Stats)
  deriving DecidableEq, Repr

def LogLevel.name : LogLevel → String
  | .debug => "DEBUG"
  | .trace => "TRACE"

namespace LogRecord

def level : LogRecord → LogLevel
  | .settled .. => .debug
  | .rebuilt .. => .trace
  | .reported .. => .trace

def message : LogRecord → String
  | .settled strategy stats =>
    s!"{strategy.name} settle: removed {stats.removed}, retained {stats.retained}, " ++
      s!"references {stats.total}"
  | .rebuilt components tracked =>
    s!"rebuilt {components} components over {tracked} tracked values"
  | .reported strategy line stats => s!"{strategy.name} settle at line {line}: {stats.describe}"

def render (record : LogRecord) : String :=
  s!"{record.level.name} {record.message}"

end LogRecord

end Reclaim
