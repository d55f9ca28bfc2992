/-! The report of one settle of a script. -/

set_option autoImplicit false

namespace Reclaim

def insertName (name : String) : List String → List String
  | [] => [name]
  | other :: rest => if name ≤ other then name :: other :: rest else other :: insertName name rest

def sortNames (names : List String) : List String :=
  names.foldr insertName []

theorem insertName_perm (name : String) (names : List String) :
    (insertName name names).Perm (name :: names) := by
  induction names with
  | nil => exact .refl _
  | cons other rest ih =>
    unfold insertName
    split
    · exact .refl _
    · exact (ih.cons other).trans (.swap name other rest)

theorem sortNames_perm (names : List String) : (sortNames names).Perm names := by
  induction names with
  | nil => exact .refl _
  | cons name rest ih => exact (insertName_perm name _).trans (ih.cons name)

theorem pairwise_insertName {name : String} {names : List String}
    (sorted : names.Pairwise (· ≤ ·)) : (insertName name names).Pairwise (· ≤ ·) := by
  induction names with
  | nil => exact List.pairwise_singleton _ _
  | cons other rest ih =>
    obtain ⟨least, sorted⟩ := List.pairwise_cons.mp sorted
    unfold insertName
    split
    next first =>
      refine List.pairwise_cons.mpr ⟨fun found member => ?_, List.pairwise_cons.mpr ⟨least, sorted⟩⟩
      obtain rfl | member := List.mem_cons.mp member
      · exact first
      · exact String.le_trans first (least found member)
    next later =>
      refine List.pairwise_cons.mpr ⟨fun found member => ?_, ih sorted⟩
      obtain rfl | member := List.mem_cons.mp ((insertName_perm name rest).mem_iff.mp member)
      · exact (String.le_total found other).resolve_left later
      · exact least found member

theorem pairwise_sortNames (names : List String) : (sortNames names).Pairwise (· ≤ ·) := by
  induction names with
  | nil => exact .nil
  | cons name rest ih => exact pairwise_insertName ih

/-- The names of the removed values are those they were created under, in ascending order. -/
structure Report where
  line : Nat
  count : Nat
  retained : Nat
  removed : List String
  deriving DecidableEq, Repr

def Report.summary (report : Report) (withNames : Bool) : String :=
  let names :=
    if withNames && !report.removed.isEmpty then
      " [" ++ ", ".intercalate report.removed ++ "]"
    else ""
  s!"line {report.line}: count {report.count}, removed {report.removed.length}, " ++
    s!"retained {report.retained}" ++ names

end Reclaim
