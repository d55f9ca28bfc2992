import Reclaim.Replay.Run

/-! The arguments of the command. Options and files may be mixed; two dashes end the options.
An option is given at most once, by its full name, with its value after an equals sign or as
the next argument. Arguments are taken from left to right, and the first that is wrong, or that
asks for help, decides. -/

set_option autoImplicit false

namespace Reclaim

structure Invocation where
  options : ReplayOptions
  files : List String

inductive Refusal where
  | help
  | usage
  deriving DecidableEq, Repr

/-- The arguments taken so far. An option that has not been given is absent; `awaiting` names
one whose value is the next argument, and after `ended` all that follow are files. -/
structure Arguments where
  strategy : Option Strategy := none
  compare : Bool := false
  printRemoved : Bool := false
  maxReferences : Option Nat := none
  maxTracked : Option Nat := none
  files : List String := []
  awaiting : Option String := none
  ended : Bool := false

namespace Arguments

def setSwitch (arguments : Arguments) (name : String) : Except Refusal Arguments :=
  match name with
  | "--help" => .error .help
  | "--compare" =>
    if arguments.compare then .error .usage else .ok { arguments with compare := true }
  | "--print-removed" =>
    if arguments.printRemoved then .error .usage else .ok { arguments with printRemoved := true }
  | _ => .error .usage

def valued : List String :=
  ["--strategy", "--max-references", "--max-tracked-items"]

def setValue (arguments : Arguments) (name value : String) : Except Refusal Arguments :=
  match name, Strategy.ofName? value, readCount? value with
  | "--strategy", some strategy, _ =>
    if arguments.strategy.isSome then .error .usage
    else .ok { arguments with strategy := some strategy }
  | "--max-references", _, some limit =>
    if arguments.maxReferences.isSome then .error .usage
    else .ok { arguments with maxReferences := some limit }
  | "--max-tracked-items", _, some limit =>
    if arguments.maxTracked.isSome then .error .usage
    else .ok { arguments with maxTracked := some limit }
  | _, _, _ => .error .usage

def isOption (argument : String) : Bool :=
  argument.startsWith "-" && argument != "-"

def splitEquals (argument : String) : String × Option String :=
  let text := argument.toList
  match text.dropWhile (· != '=') with
  | [] => (argument, none)
  | _ :: value => (String.ofList (text.takeWhile (· != '=')), some (String.ofList value))

def addFile (arguments : Arguments) (file : String) : Arguments :=
  { arguments with files := arguments.files ++ [file] }

def take (arguments : Arguments) (argument : String) : Except Refusal Arguments :=
  if arguments.ended then
    .ok (arguments.addFile argument)
  else
    match arguments.awaiting with
    | some name =>
      if isOption argument then .error .usage
      else { arguments with awaiting := none }.setValue name argument
    | none =>
      if argument = "--" then
        .ok { arguments with ended := true }
      else if argument.startsWith "--" then
        match splitEquals argument with
        | (name, some value) => arguments.setValue name value
        | (name, none) =>
          if valued.contains name then .ok { arguments with awaiting := some name }
          else arguments.setSwitch name
      else if isOption argument then
        .error (if argument.startsWith "-h" then .help else .usage)
      else
        .ok (arguments.addFile argument)

def invocation (arguments : Arguments) (eager : Bool) : Except Refusal Invocation :=
  if arguments.files.isEmpty || arguments.awaiting.isSome then
    .error .usage
  else
    let defaults : Budget := {}
    .ok
      { files := arguments.files
        options :=
          { strategy := arguments.strategy.getD .markSweep
            compare := arguments.compare
            printRemoved := arguments.printRemoved
            budget :=
              { maxReferences := arguments.maxReferences.getD defaults.maxReferences
                maxTracked := arguments.maxTracked.getD defaults.maxTracked }
            eager } }

end Arguments

def readArguments (eager : Bool) (arguments : List String) : Except Refusal Invocation := do
  (← arguments.foldlM Arguments.take {}).invocation eager

end Reclaim
