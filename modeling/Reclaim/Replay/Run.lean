import Reclaim.Replay.Session
import Reclaim.Settings

/-! Replaying a script under one strategy, or under both with a comparison of their reports.
What is printed before a fault stays printed. -/

set_option autoImplicit false

namespace Reclaim

structure ReplayOptions extends Settings where
  compare : Bool := false
  printRemoved : Bool := false

structure Replay where
  output : List String
  fault : Option Fault := none

def Settings.session (settings : Settings) : Session where
  counter := settings.counter
  budget := settings.budget

def ReplayOptions.reports (options : ReplayOptions) (strategy : Strategy)
    (script : List ScriptLine) : Except Fault (List Report) :=
  { options.toSettings with strategy }.session.run script

def compareReports (printRemoved : Bool) (first second : Strategy) : List (Report × Report) → Replay
  | [] => { output := [] }
  | (expected, found) :: rest =>
    if expected = found then
      let replay := compareReports printRemoved first second rest
      { replay with output := expected.summary printRemoved :: replay.output }
    else
      { output := []
        fault := some (.diverged expected.line first (expected.summary true)
          second (found.summary true)) }

/-- Replay under the chosen strategy. Nothing is printed unless every line succeeds. -/
def replaySingle (options : ReplayOptions) (script : List ScriptLine) : Replay :=
  match options.reports options.strategy script with
  | .ok reports => { output := reports.map (·.summary options.printRemoved) }
  | .error fault => { output := [], fault := some fault }

def replayBoth (options : ReplayOptions) (script : List ScriptLine) : Replay :=
  match options.reports .markSweep script with
  | .error fault => { output := [], fault := some fault }
  | .ok expected =>
    match options.reports .incremental script with
    | .error fault => { output := [], fault := some fault }
    | .ok found =>
      let replay := compareReports options.printRemoved .markSweep .incremental (expected.zip found)
      if replay.fault.isSome then replay
      else { output := replay.output ++ [s!"{expected.length} settles, strategies agree"] }

def replay (options : ReplayOptions) (script : List ScriptLine) : Replay :=
  if options.compare then replayBoth options script else replaySingle options script

end Reclaim
