import Reclaim.Budget
import Reclaim.Collect.Strategy
import Reclaim.Script.Reader

/-! Why a replay stops before the end of its script. -/

set_option autoImplicit false

namespace Reclaim

inductive Expected where
  | list
  | map
  | container
  deriving DecidableEq, Repr

def Expected.text : Expected → String
  | .list => "an array or struct"
  | .map => "a map"
  | .container => "a container"

def Expected.accepts : Expected → Kind → Bool
  | .list, kind => kind.isList
  | .map, kind => !kind.isList
  | .container, _ => true

inductive FaultCause where
  | unknownName (name : String)
  | wrongKind (name kind : String) (expected : Expected)
  | indexOutOfRange (name : String) (index : Nat)
  | missingKey (name key : String)
  | ledger (error : LedgerError)
  | budget (error : BudgetError)
  deriving DecidableEq, Repr

/-- A line can fail, the run can be aborted, or two strategies can report different settles. -/
inductive Fault where
  | failed (line : Nat) (cause : FaultCause)
  | aborted (abort : Abort)
  | diverged (line : Nat) (expected : Strategy) (expectedReport : String)
      (found : Strategy) (foundReport : String)
  deriving DecidableEq, Repr

def FaultCause.message (label : Ident → String) : FaultCause → String
  | .unknownName name => s!"{quoted name} is not bound"
  | .wrongKind name kind expected => s!"{quoted name} is a {kind}, expected {expected.text}"
  | .indexOutOfRange name index => s!"index {index} is out of range for {quoted name}"
  | .missingKey name key => s!"{quoted name} has no key {quoted key}"
  | .ledger error => error.message label
  | .budget error => error.message

def Fault.message (label : Ident → String) : Fault → String
  | .failed line cause => s!"line {line}: {cause.message label}"
  | .aborted abort => abort.message
  | .diverged line expected expectedReport found foundReport =>
    s!"strategies diverge at line {line}: {expected.name} reported {quoted expectedReport}, " ++
      s!"{found.name} reported {quoted foundReport}"

end Reclaim
