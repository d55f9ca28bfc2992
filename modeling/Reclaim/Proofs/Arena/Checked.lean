import Reclaim.Count

/-! Computations that check what they do. Each access to an array by index and each subtraction is a step
that can stop the computation, and so is each addition to a count. -/

set_option autoImplicit false

namespace Reclaim

/-- The largest number that 32 bits hold. It stands for a node without a discovery number. -/
def maxNumber : Nat := Nat.pow 2 32 - 1

inductive Trap where
  /-- A count or a block of bytes is too large. -/
  | aborted (abort : Abort)
  /-- An index is past the end of an array. -/
  | outOfBounds
  /-- More is taken off a count than it has. -/
  | belowZero
  /-- The discovery numbers have run out. -/
  | exhausted
  deriving DecidableEq, Repr

abbrev Checked (α : Type) := Except Trap α

section Primitives

variable {α : Type}

def addUp (count more : Nat) : Checked Nat := (addCount count more).mapError .aborted

def takeOff (count less : Nat) : Checked Nat :=
  if less ≤ count then .ok (count - less) else .error .belowZero

def readAt (cells : Array α) (index : Nat) : Checked α :=
  match cells[index]? with
  | some cell => .ok cell
  | none => .error .outOfBounds

def writeAt (cells : Array α) (index : Nat) (cell : α) : Checked (Array α) :=
  if index < cells.size then .ok (cells.setIfInBounds index cell) else .error .outOfBounds

theorem readAt_ok {cells : Array α} {index : Nat} {cell : α} (read : readAt cells index = .ok cell) :
    cells[index]? = some cell := by
  unfold readAt at read
  split at read
  next found =>
    cases read
    exact found
  next => cases read

theorem size_writeAt {cells after : Array α} {index : Nat} {cell : α}
    (written : writeAt cells index cell = .ok after) : after.size = cells.size := by
  unfold writeAt at written
  split at written
  next =>
    cases written
    exact Array.size_setIfInBounds
  next => cases written

theorem countP_writeAt {cells after : Array α} {index : Nat} {cell old : α} {counts : α → Bool}
    (written : writeAt cells index cell = .ok after) (found : cells[index]? = some old)
    (excluded : counts cell = false) :
    after.countP counts + (if counts old then 1 else 0) = cells.countP counts := by
  unfold writeAt at written
  split at written
  next below =>
    cases written
    rw [Array.getElem?_eq_getElem below, Option.some.injEq] at found
    simp only [Array.setIfInBounds, dif_pos below, Array.countP_set, excluded, found,
      Bool.false_eq_true, if_false, Nat.add_zero]
    split
    next counted =>
      have positive : 0 < cells.countP counts :=
        Array.countP_pos_iff.mpr ⟨old, found ▸ Array.getElem_mem below, counted⟩
      omega
    next => rfl
  next => cases written

def nextNumber (number : Nat) : Checked Nat :=
  if number < maxNumber then .ok (number + 1) else .error .exhausted

end Primitives

/-- The computation gives something good, or it stops because a count or a block is too large. The
discovery numbers run out only if there are not few nodes. -/
def Safe {α : Type} (few : Prop) (good : α → Prop) : Checked α → Prop
  | .ok value => good value
  | .error (.aborted _) => True
  | .error .exhausted => ¬few
  | .error _ => False

section Safety

variable {α β : Type} {few : Prop} {good : α → Prop} {fine : β → Prop} {result : Checked α}

theorem Safe.imp {other : α → Prop} (safe : Safe few good result)
    (weaker : ∀ value, good value → other value) : Safe few other result := by
  match result, safe with
  | .ok value, safe => exact weaker value safe
  | .error (.aborted _), _ => exact trivial
  | .error .exhausted, safe => exact safe

theorem Safe.bind {next : α → Checked β} (safe : Safe few good result)
    (later : ∀ value, good value → Safe few fine (next value)) : Safe few fine (result >>= next) := by
  match result, safe with
  | .ok value, safe => exact later value safe
  | .error (.aborted _), _ => exact trivial
  | .error .exhausted, safe => exact safe

theorem Safe.map {change : α → β} (safe : Safe few good result)
    (changed : ∀ value, good value → fine (change value)) : Safe few fine (change <$> result) := by
  match result, safe with
  | .ok value, safe => exact changed value safe
  | .error (.aborted _), _ => exact trivial
  | .error .exhausted, safe => exact safe

/-- How a safe computation has stopped does not depend on what it would have given. -/
theorem Safe.of_error {trap : Trap} (safe : Safe few good (.error trap : Checked α)) :
    Safe few fine (.error trap : Checked β) := by
  match trap, safe with
  | .aborted _, _ => exact trivial
  | .exhausted, safe => exact safe

theorem Safe.of_ok {value : α} (safe : Safe few good result) (ended : result = .ok value) :
    good value := by
  subst ended
  exact safe

theorem Safe.weaken {fewer : Prop} (safe : Safe few good result) (enough : fewer → few) :
    Safe fewer good result := by
  match result, safe with
  | .ok _, safe => exact safe
  | .error (.aborted _), _ => exact trivial
  | .error .exhausted, safe => exact fun true_fewer => safe (enough true_fewer)

theorem Safe.cases (safe : Safe few good result) (true_few : few) :
    (∃ value, result = .ok value ∧ good value) ∨ ∃ abort, result = .error (.aborted abort) := by
  match result, safe with
  | .ok value, safe => exact .inl ⟨value, rfl, safe⟩
  | .error (.aborted abort), _ => exact .inr ⟨abort, rfl⟩
  | .error .exhausted, safe => exact absurd true_few safe

theorem safe_addUp (count more : Nat) :
    Safe few (fun sum => addCount count more = .ok sum) (addUp count more) := by
  unfold addUp
  cases added : addCount count more with
  | ok sum => exact rfl
  | error abort => exact trivial

theorem safe_takeOff {count less : Nat} (covered : less ≤ count) :
    Safe few (· = count - less) (takeOff count less) := by
  unfold takeOff
  rw [if_pos covered]
  exact rfl

theorem safe_readAt {cells : Array α} {index : Nat} {cell : α} (found : cells[index]? = some cell) :
    Safe few (· = cell) (readAt cells index) := by
  unfold readAt
  rw [found]
  exact rfl

theorem safe_writeAt {cells : Array α} {index : Nat} (cell : α) (below : index < cells.size) :
    Safe few (· = cells.setIfInBounds index cell) (writeAt cells index cell) := by
  unfold writeAt
  rw [if_pos below]
  exact rfl

theorem safe_nextNumber {number : Nat} (fits : few → number < maxNumber) :
    Safe few (fun next => next = number + 1 ∧ number < maxNumber) (nextNumber number) := by
  unfold nextNumber
  split
  next small => exact ⟨rfl, small⟩
  next large => exact fun true_few => large (fits true_few)

theorem safe_anyM {test : α → Checked Bool} {holds : α → Bool} {items : List α}
    (tested : ∀ item ∈ items, Safe few (· = holds item) (test item)) :
    Safe few (· = items.any holds) (items.anyM test) := by
  induction items with
  | nil => exact rfl
  | cons item rest ih =>
    obtain ⟨here, others⟩ := List.forall_mem_cons.mp tested
    rw [List.anyM_cons, List.any_cons]
    refine here.bind ?_
    rintro _ rfl
    cases holds item with
    | true => exact rfl
    | false => exact ih others

end Safety

end Reclaim
