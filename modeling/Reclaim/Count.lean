/-! Counts are 64-bit words. An addition past the largest word, or a block of bytes
larger than the address space admits, aborts the run that asked for it. -/

set_option autoImplicit false

namespace Reclaim

def maxCount : Nat := Nat.pow 2 64 - 1

def maxCapacity : Nat := Nat.pow 2 63 - 1

inductive Abort where
  | countOverflow
  | capacityOverflow
  deriving DecidableEq, Repr

def Abort.message : Abort → String
  | .countOverflow => "attempt to add with overflow"
  | .capacityOverflow => "capacity overflow"

def addCount (count more : Nat) : Except Abort Nat :=
  if count + more ≤ maxCount then .ok (count + more) else .error .countOverflow

theorem addCount_eq_ok_iff {count more sum : Nat} :
    addCount count more = .ok sum ↔ sum = count + more ∧ sum ≤ maxCount := by
  unfold addCount
  split
  next fits => simp only [Except.ok.injEq]; omega
  next exceeds => simp only [reduceCtorEq, false_iff]; omega

end Reclaim
