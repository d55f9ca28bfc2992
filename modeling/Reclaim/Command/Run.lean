import Reclaim.Command.Arguments
import Reclaim.Command.Files

/-! Running the command: each file in turn is read and replayed, and the first that fails ends
the command. What was printed before stays printed. -/

set_option autoImplicit false

namespace Reclaim

/-- The exit codes: 0 for success, 1 for a file that fails, 2 for arguments that are refused,
101 for an aborted run. -/
structure CommandResult where
  exitCode : Nat := 0
  stdout : String := ""
  stderr : String := ""
  deriving DecidableEq, Repr

namespace CommandResult

def failed (file message : String) : CommandResult where
  exitCode := 1
  stderr := s!"{file}: {message}\n"

def after (result : CommandResult) (printed : String) : CommandResult :=
  { result with stdout := printed ++ result.stdout }

end CommandResult

def usage : String :=
  "Replay scripts of reference operations.\n\n" ++
  "Usage: reclaim [OPTIONS] <FILES>...\n\n" ++
  "Options:\n" ++
  "      --strategy <STRATEGY>                    mark-sweep or incremental\n" ++
  "      --compare                                run both strategies and compare their reports\n" ++
  "      --print-removed                          name the values that each settle removes\n" ++
  "      --max-references <MAX_REFERENCES>        ceiling on the references after a settle\n" ++
  "      --max-tracked-items <MAX_TRACKED_ITEMS>  ceiling on the tracked values after a settle\n" ++
  "  -h, --help                                   print this text\n"

def printLines (output : List String) : String :=
  String.join (output.map (· ++ "\n"))

def replayText (options : ReplayOptions) (label : Ident → String) (file text : String) :
    CommandResult :=
  match readScript text with
  | .error error => .failed file error.message
  | .ok script =>
    let result := replay options script
    let printed := printLines result.output
    match result.fault with
    | none => { stdout := printed }
    | some (.aborted abort) =>
      { exitCode := 101, stdout := printed, stderr := abort.message ++ "\n" }
    | some fault => (CommandResult.failed file (fault.message label)).after printed

def replayContent (options : ReplayOptions) (label : Ident → String) (file : String) :
    Except FileError ByteArray → CommandResult
  | .error error => .failed file error.message
  | .ok content =>
    match String.fromUTF8? content with
    | some text => replayText options label file text
    | none => .failed file FileError.notText.message

/-- Replay files in order, up to the first that fails. Headings tell several files apart. -/
def replayFiles {m : Type → Type} [Monad m] (read : String → m (Except FileError ByteArray))
    (options : ReplayOptions) (label : Ident → String) (headings : Bool) :
    List String → m CommandResult
  | [] => return {}
  | file :: rest => do
    let content ← read file
    let heading := if headings then s!"== {file}\n" else ""
    let result := (replayContent options label file content).after heading
    if result.exitCode = 0 then
      let others ← replayFiles read options label headings rest
      return others.after result.stdout
    else
      return result

def runCommand {m : Type → Type} [Monad m] (read : String → m (Except FileError ByteArray))
    (label : Ident → String) (eager : Bool) (arguments : List String) : m CommandResult :=
  match readArguments eager arguments with
  | .error .help => return { stdout := usage }
  | .error .usage => return { exitCode := 2, stderr := usage }
  | .ok invocation =>
    replayFiles read invocation.options label (invocation.files.length > 1) invocation.files

end Reclaim
