import Reclaim.Script.Blank

/-! Cutting a text: into lines at line feeds, and a line into words at blanks. The number of a
line is the number of line feeds before it, plus one. -/

set_option autoImplicit false

namespace Reclaim

def pieces (cut : Char → Bool) (text : List Char) : List (List Char) :=
  text.foldr (fun c parts => if cut c then [] :: parts else parts.modifyHead (c :: ·)) [[]]

theorem pieces_nil (cut : Char → Bool) : pieces cut [] = [[]] := rfl

theorem pieces_cons (cut : Char → Bool) (c : Char) (rest : List Char) :
    pieces cut (c :: rest) =
      if cut c then [] :: pieces cut rest else (pieces cut rest).modifyHead (c :: ·) := rfl

theorem pieces_ne_nil (cut : Char → Bool) (text : List Char) : pieces cut text ≠ [] := by
  induction text with
  | nil => simp [pieces_nil]
  | cons c rest ih =>
    rw [pieces_cons]
    split
    · simp
    · cases parts : pieces cut rest with
      | nil => exact absurd parts ih
      | cons => simp

theorem pieces_append_cons {cut : Char → Bool} {c : Char} (cuts : cut c = true)
    (first second : List Char) :
    pieces cut (first ++ c :: second) = pieces cut first ++ pieces cut second := by
  induction first with
  | nil => simp [pieces_nil, pieces_cons, cuts]
  | cons d rest ih =>
    simp only [List.cons_append, pieces_cons, ih]
    split
    · rfl
    · cases parts : pieces cut rest with
      | nil => exact absurd parts (pieces_ne_nil cut rest)
      | cons => simp

theorem flatten_pieces (cut : Char → Bool) (text : List Char) :
    (pieces cut text).flatten = text.filter (!cut ·) := by
  induction text with
  | nil => rfl
  | cons c rest ih =>
    rw [pieces_cons]
    split
    next cuts => simp [cuts, ih]
    next keeps =>
      cases parts : pieces cut rest with
      | nil => exact absurd parts (pieces_ne_nil cut rest)
      | cons =>
        rw [parts] at ih
        simp only [List.modifyHead_cons, List.flatten_cons, List.cons_append] at ih ⊢
        simp [keeps, ← ih]

def lines (text : List Char) : List (List Char) :=
  pieces (· == '\n') text

def words (line : List Char) : List String :=
  ((pieces isBlank line).filter (!·.isEmpty)).map String.ofList

def uncommented (line : List Char) : List Char :=
  line.takeWhile (· != '#')

end Reclaim
