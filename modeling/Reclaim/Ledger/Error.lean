import Reclaim.Count
import Reclaim.Heap.Value

/-! Why the ledger refuses an operation. A refused counting operation changes nothing. -/

set_option autoImplicit false

namespace Reclaim

inductive Inconsistency where
  | slotNotTracked
  | edgesDiffer
  deriving DecidableEq, Repr

inductive LedgerError where
  /-- A hold was dropped on a shared value that has none. -/
  | holdUnderflow (id : Ident)
  /-- An edge was removed that is not recorded. -/
  | missingEdge (item owner : Ident)
  /-- A scalar was removed from an owner that is not tracked. -/
  | untrackedOwner (owner : Ident)
  /-- Only containers own children. -/
  | notContainer (owner : Value)
  /-- The total count would drop below zero. -/
  | totalUnderflow
  | inconsistent (cause : Inconsistency)
  deriving DecidableEq, Repr

def Inconsistency.message : Inconsistency → String
  | .slotNotTracked => "collected slot is not tracked"
  | .edgesDiffer => "owner edges do not match container contents"

def Value.leafKind : Value → String
  | .scalar atom => atom.kindName
  | .shared _ => "buffer"

def LedgerError.message (label : Ident → String) : LedgerError → String
  | .holdUnderflow id => s!"stack reference count of {identText label id} is already zero"
  | .missingEdge item owner =>
    s!"{identText label item} has no owner edge from {identText label owner}"
  | .untrackedOwner owner => s!"owner {identText label owner} is not tracked"
  | .notContainer owner => s!"a {owner.leafKind} cannot own child values"
  | .totalUnderflow => "total reference count underflow"
  | .inconsistent cause => s!"ledger state is inconsistent: {cause.message}"

/-- A refusal is an answer to the caller; an abort ends the run. -/
inductive Failure where
  | refused (error : LedgerError)
  | aborted (abort : Abort)
  deriving DecidableEq, Repr

end Reclaim
