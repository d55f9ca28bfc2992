import Mathlib.Data.List.TakeWhile
import Reclaim.Script.Text

/-! How a text is laid out: lines with line feeds between them; on a line, words with blanks around
and between them, and a comment at the end. -/

set_option autoImplicit false

namespace Reclaim

structure Physical (text : List Char) (parts : List (List Char)) : Prop where
  nonempty : parts ≠ []
  unbroken : ∀ line ∈ parts, '\n' ∉ line
  joined : ['\n'].intercalate parts = text

structure Unparted (word : String) : Prop where
  nonempty : word.toList ≠ []
  solid : ∀ c ∈ word.toList, isBlank c = false

/-- The words of a line: at least one blank is between two of them, and blanks may be around. -/
inductive Parted : List Char → List String → Prop where
  | nil : Parted [] []
  | blank {c : Char} {line : List Char} {ws : List String} (blank : isBlank c = true)
      (rest : Parted line ws) : Parted (c :: line) ws
  | last {word : String} (unparted : Unparted word) : Parted word.toList [word]
  | word {word : String} {c : Char} {line : List Char} {ws : List String} (unparted : Unparted word)
      (blank : isBlank c = true) (rest : Parted line ws) :
      Parted (word.toList ++ c :: line) (word :: ws)

inductive Carries : List Char → List String → Prop where
  | bare {body : List Char} {ws : List String} (free : '#' ∉ body) (parted : Parted body ws) :
      Carries body ws
  | commented {body comment : List Char} {ws : List String} (free : '#' ∉ body)
      (parted : Parted body ws) : Carries (body ++ '#' :: comment) ws

theorem pieces_eq_splitOnP (cut : Char → Bool) (text : List Char) :
    pieces cut text = text.splitOnP cut := by
  induction text with
  | nil => rfl
  | cons c rest ih => rw [pieces_cons, List.splitOnP_cons_eq_if_modifyHead, ih]

theorem lines_eq_splitOn (text : List Char) : lines text = text.splitOn '\n' :=
  pieces_eq_splitOnP _ text

theorem lines_eq_iff {text : List Char} {parts : List (List Char)} :
    lines text = parts ↔ Physical text parts := by
  constructor
  · rintro rfl
    exact {
      nonempty := pieces_ne_nil _ text
      unbroken := by
        intro line member feed
        have kept : '\n' ∈ (lines text).flatten := List.mem_flatten_of_mem member feed
        simp [lines, flatten_pieces] at kept
      joined := by rw [lines_eq_splitOn, List.intercalate_splitOn] }
  · intro physical
    rw [lines_eq_splitOn, ← physical.joined]
    exact List.splitOn_intercalate '\n' physical.unbroken physical.nonempty

theorem words_blank {c : Char} (blank : isBlank c = true) (line : List Char) :
    words (c :: line) = words line := by
  simp [words, pieces_cons, blank]

theorem words_last {word : String} (unparted : Unparted word) : words word.toList = [word] := by
  rw [words, pieces_eq_splitOnP, List.splitOnP_eq_singleton unparted.solid]
  simp [List.isEmpty_eq_false_iff.mpr unparted.nonempty]

theorem words_word {word : String} {c : Char} (unparted : Unparted word) (blank : isBlank c = true)
    (line : List Char) : words (word.toList ++ c :: line) = word :: words line := by
  have once := words_last unparted
  rw [words] at once ⊢
  rw [pieces_append_cons blank, List.filter_append, List.map_append, once]
  rfl

theorem parted_cases (line : List Char) :
    line = [] ∨ (∃ c rest, line = c :: rest ∧ isBlank c = true) ∨
      (∃ word : String, Unparted word ∧ line = word.toList) ∨
      ∃ (word : String) (c : Char) (rest : List Char),
        Unparted word ∧ isBlank c = true ∧ line = word.toList ++ c :: rest := by
  cases line with
  | nil => exact .inl rfl
  | cons c rest =>
    refine .inr ?_
    by_cases blank : isBlank c = true
    · exact .inl ⟨c, rest, rfl, blank⟩
    · refine .inr ?_
      let word := String.ofList ((c :: rest).takeWhile (!isBlank ·))
      have unparted : Unparted word :=
        { nonempty := by simp [word, blank]
          solid := by
            intro d member
            rw [String.toList_ofList] at member
            have kept := List.mem_takeWhile_imp member
            simpa using kept }
      have divides : word.toList ++ (c :: rest).dropWhile (!isBlank ·) = c :: rest := by
        rw [String.toList_ofList, List.takeWhile_append_dropWhile]
      cases after : (c :: rest).dropWhile (!isBlank ·) with
      | nil => exact .inl ⟨word, unparted, by rw [← divides, after, List.append_nil]⟩
      | cons d tail =>
        refine .inr ⟨word, d, tail, unparted, ?_, by rw [← divides, after]⟩
        have first := List.head?_dropWhile_not (!isBlank ·) (c :: rest)
        rw [after] at first
        simpa using first

theorem words_eq_iff {line : List Char} {ws : List String} : words line = ws ↔ Parted line ws := by
  constructor
  · rintro rfl
    -- A blank, or a word with the blank after it, leaves a shorter line.
    induction length : line.length using Nat.strongRecOn generalizing line with
    | ind length ih =>
      subst length
      obtain rfl | ⟨c, rest, rfl, blank⟩ | ⟨word, unparted, rfl⟩ | ⟨word, c, rest, unparted, blank, rfl⟩ :=
        parted_cases line
      · exact .nil
      · rw [words_blank blank]
        exact .blank blank (ih rest.length (by simp) rfl)
      · rw [words_last unparted]
        exact .last unparted
      · rw [words_word unparted blank]
        exact .word unparted blank (ih rest.length (by simp; omega) rfl)
  · intro parted
    induction parted with
    | nil => rfl
    | blank blank _ ih => rw [words_blank blank, ih]
    | last unparted => exact words_last unparted
    | word unparted blank _ ih => rw [words_word unparted blank, ih]

theorem uncommented_eq_self {body : List Char} (free : '#' ∉ body) : uncommented body = body :=
  List.takeWhile_eq_self_iff.mpr fun c member => by
    simpa using ne_of_mem_of_not_mem member free

theorem uncommented_append {body : List Char} (free : '#' ∉ body) (comment : List Char) :
    uncommented (body ++ '#' :: comment) = body := by
  have bare := uncommented_eq_self free
  unfold uncommented at bare ⊢
  simp [List.takeWhile_append, bare]

theorem uncommented_cases (line : List Char) :
    '#' ∉ uncommented line ∧
      (line = uncommented line ∨ ∃ comment, line = uncommented line ++ '#' :: comment) := by
  have divides : uncommented line ++ line.dropWhile (· != '#') = line := List.takeWhile_append_dropWhile
  refine ⟨fun sign => by simpa using List.mem_takeWhile_imp sign, ?_⟩
  cases after : line.dropWhile (· != '#') with
  | nil => exact .inl (by rw [after, List.append_nil] at divides; exact divides.symm)
  | cons c comment =>
    have first := List.head?_dropWhile_not (· != '#') line
    obtain rfl : c = '#' := by simpa [after] using first
    exact .inr ⟨comment, by rw [← after, divides]⟩

theorem words_uncommented_eq_iff {line : List Char} {ws : List String} :
    words (uncommented line) = ws ↔ Carries line ws := by
  constructor
  · intro read
    obtain ⟨free, same | ⟨comment, same⟩⟩ := uncommented_cases line <;> rw [same]
    · exact .bare free (words_eq_iff.mp read)
    · exact .commented free (words_eq_iff.mp read)
  · intro carries
    cases carries with
    | bare free parted => rw [uncommented_eq_self free, words_eq_iff.mpr parted]
    | commented free parted => rw [uncommented_append free, words_eq_iff.mpr parted]

end Reclaim
