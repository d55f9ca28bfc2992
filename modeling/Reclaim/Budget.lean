import Reclaim.Ledger.Basic

/-! The budget of a run: ceilings on the total of references and on the number of tracked
values. The ledger never consults it; whoever settles checks it afterwards. -/

set_option autoImplicit false

namespace Reclaim

structure Budget where
  maxReferences : Nat := 2048
  maxTracked : Nat := 2048
  deriving DecidableEq, Repr

inductive BudgetError where
  | references (count limit : Nat)
  | tracked (count limit : Nat)
  deriving DecidableEq, Repr

def BudgetError.message : BudgetError → String
  | .references count limit => s!"reference count {count} exceeds the limit of {limit}"
  | .tracked count limit => s!"{count} tracked values exceed the limit of {limit}"

def Budget.check (budget : Budget) (ledger : Ledger) : Except BudgetError Unit :=
  if ledger.total > budget.maxReferences then
    .error (.references ledger.total budget.maxReferences)
  else if ledger.trackedCount > budget.maxTracked then
    .error (.tracked ledger.trackedCount budget.maxTracked)
  else
    .ok ()

end Reclaim
