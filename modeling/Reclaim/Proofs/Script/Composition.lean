import Reclaim.Script.Reader

/-! Scripts one after the other. A line is read on its own, and all that a line knows of those
before it is how many they are: two texts with a line feed between them are read as each of them
is, and the lines of the second one are counted on from the first. -/

set_option autoImplicit false

namespace Reclaim

def ScriptLine.lower (above : Nat) (line : ScriptLine) : ScriptLine :=
  { line with number := line.number + above }

def ReadError.lower (above : Nat) (error : ReadError) : ReadError :=
  { error with line := error.line + above }

def lowered (above : Nat) : Except ReadError (List ScriptLine) → Except ReadError (List ScriptLine)
  | .error error => .error (error.lower above)
  | .ok script => .ok (script.map (ScriptLine.lower above))

/-- One line for each line feed, and the one after the last of them. -/
theorem length_lines (text : List Char) : (lines text).length = text.count '\n' + 1 := by
  rw [lines]
  induction text with
  | nil => rfl
  | cons c rest ih =>
    rw [pieces_cons]
    by_cases feed : c = '\n'
    · subst feed
      simp [ih]
    · simp [feed, ih]

/-- A line feed keeps what is before it from what is after it. -/
theorem lines_append (first second : List Char) :
    lines (first ++ '\n' :: second) = lines first ++ lines second :=
  pieces_append_cons (by decide) first second

theorem readLines_error {number : Nat} {line : List Char} {rest : List (List Char)} {cause : ReadCause}
    (read : readWords (words (uncommented line)) = .error cause) :
    readLines number (line :: rest) = .error ⟨number, cause⟩ := by
  rw [readLines, read]

theorem readLines_ok {number : Nat} {line : List Char} {rest : List (List Char)} {op? : Option Op}
    (read : readWords (words (uncommented line)) = .ok op?) :
    readLines number (line :: rest) =
      (readLines (number + 1) rest).map ((op?.map (⟨number, ·⟩)).toList ++ ·) := by
  rw [readLines, read]
  cases readLines (number + 1) rest <;> rfl

theorem readLines_add (number above : Nat) (parts : List (List Char)) :
    readLines (number + above) parts = lowered above (readLines number parts) := by
  induction parts generalizing number with
  | nil => rfl
  | cons line rest ih =>
    cases read : readWords (words (uncommented line)) with
    | error cause =>
      rw [readLines_error read, readLines_error read]
      rfl
    | ok op? =>
      rw [readLines_ok read, readLines_ok read, Nat.add_right_comm, ih]
      cases readLines (number + 1) rest with
      | error error => rfl
      | ok script => cases op? <;> rfl

theorem readLines_append_bind (number : Nat) (before after : List (List Char)) :
    readLines number (before ++ after) =
      (readLines number before).bind fun first =>
        (readLines (number + before.length) after).map (first ++ ·) := by
  induction before generalizing number with
  | nil =>
    show readLines number after = (readLines number after).map id
    cases readLines number after <;> rfl
  | cons line rest ih =>
    rw [List.cons_append]
    cases read : readWords (words (uncommented line)) with
    | error cause =>
      rw [readLines_error read, readLines_error read]
      rfl
    | ok op? =>
      rw [readLines_ok read, readLines_ok read, ih, List.length_cons, Nat.add_right_comm, Nat.add_assoc]
      cases readLines (number + 1) rest with
      | error error => rfl
      | ok first =>
        cases readLines (number + (rest.length + 1)) after with
        | error error => rfl
        | ok second => simp [Except.map, Except.bind]

/-- What is read from two texts with a line feed between them is read from each of the two. A fault
of the first is the fault of both; otherwise the second counts its lines from below those of the
first, of which there is one more than it has line feeds. -/
theorem readScript_append (first second : String) :
    readScript (first ++ "\n" ++ second) =
      match readScript first with
      | .error error => .error error
      | .ok before =>
        match readScript second with
        | .error error => .error (error.lower (first.toList.count '\n' + 1))
        | .ok after => .ok (before ++ after.map (ScriptLine.lower (first.toList.count '\n' + 1))) := by
  have joined : (first ++ "\n" ++ second).toList = first.toList ++ '\n' :: second.toList := by simp
  rw [readScript, joined, lines_append, readLines_append_bind, length_lines, readLines_add]
  show (readScript first).bind _ = _
  cases readScript first with
  | error error => rfl
  | ok before =>
    show (lowered _ (readScript second)).map _ = _
    cases readScript second <;> rfl

end Reclaim
