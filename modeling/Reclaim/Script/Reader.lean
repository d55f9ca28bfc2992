import Reclaim.Script.Numeral
import Reclaim.Script.Op
import Reclaim.Script.Text

/-! Reading a script. Each line holds at most one operation, written as a keyword and its
operands; a number sign starts a comment. The first line that is wrong decides the error. -/

set_option autoImplicit false

namespace Reclaim

inductive ReadCause where
  | unknownOperation (word : String)
  | operands (keyword : Keyword)
  | invalidNumber (text : String)
  | unknownKind (word : String)
  deriving DecidableEq, Repr

structure ReadError where
  line : Nat
  cause : ReadCause
  deriving DecidableEq, Repr

def quoted (word : String) : String :=
  "`" ++ word ++ "`"

def ReadCause.message : ReadCause → String
  | .unknownOperation word => s!"unknown operation {quoted word}"
  | .operands keyword => s!"{quoted keyword.text} expects {keyword.operands}"
  | .invalidNumber text => s!"invalid number {quoted text}"
  | .unknownKind word => s!"unknown value kind {quoted word}"

def ReadError.message (error : ReadError) : String :=
  s!"line {error.line}: {error.cause.message}"

def readCount (text : String) : Except ReadCause Nat :=
  match readCount? text with
  | some count => .ok count
  | none => .error (.invalidNumber text)

def readInteger (text : String) : Except ReadCause Int :=
  match readInteger? text with
  | some value => .ok value
  | none => .error (.invalidNumber text)

/-- The operation that a keyword makes of its operands. Their number is looked at first. -/
def readOp : Keyword → List String → Except ReadCause Op
  | .new, ["buffer", name, size] => return .newBuffer name (← readCount size)
  | .new, ["buffer", _] => .error (.operands .new)
  | .new, [word, name] =>
    match Kind.ofName? word with
    | some kind => .ok (.newContainer kind name)
    | none => .error (.unknownKind word)
  | .int, [name, value] => return .int name (← readInteger value)
  | .bytes, [name, text] => .ok (.bytes name text)
  | .push, [name] => .ok (.push name 1)
  | .push, [name, count] => return .push name (← readCount count)
  | .pop, [name] => .ok (.pop name)
  | .append, [owner, child] => .ok (.append owner child)
  | .set, [owner, index, child] => return .set owner (← readCount index) child
  | .put, [owner, key, child] => .ok (.put owner key child)
  | .remove, [owner, index] => return .remove owner (← readCount index)
  | .delete, [owner, key] => .ok (.delete owner key)
  | .clear, [owner] => .ok (.clear owner)
  | .settle, [] => .ok .settle
  | keyword, _ => .error (.operands keyword)

def readWords : List String → Except ReadCause (Option Op)
  | [] => .ok none
  | word :: operands =>
    match Keyword.ofText? word with
    | some keyword => (readOp keyword operands).map some
    | none => .error (.unknownOperation word)

def readLines (number : Nat) : List (List Char) → Except ReadError (List ScriptLine)
  | [] => .ok []
  | line :: rest =>
    match readWords (words (uncommented line)) with
    | .error cause => .error ⟨number, cause⟩
    | .ok op => do
      let script ← readLines (number + 1) rest
      return (op.map (⟨number, ·⟩)).toList ++ script

def readScript (source : String) : Except ReadError (List ScriptLine) :=
  readLines 1 (lines source.toList)

end Reclaim
