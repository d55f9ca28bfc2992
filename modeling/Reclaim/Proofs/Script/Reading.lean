import Mathlib.Data.List.Forall2
import Reclaim.Proofs.Script.Grammar
import Reclaim.Proofs.Script.Layout

/-! Reading a whole text: what its lines mean is the script, unless one of them has a fault. -/

set_option autoImplicit false

namespace Reclaim

def Means (line : List Char) (op? : Option Op) : Prop :=
  ∃ ws, Carries line ws ∧ Spells ws op?

def Offends (line : List Char) (cause : ReadCause) : Prop :=
  ∃ ws, Carries line ws ∧ Faulty ws cause

/-- Operations with the numbers of their lines; a line without one is counted too. -/
def numbered (first : Nat) (ops : List (Option Op)) : List ScriptLine :=
  (ops.zipIdx first).filterMap fun (op?, number) => op?.map (⟨number, ·⟩)

inductive Reads (source : String) : List ScriptLine → Prop where
  | lines {parts : List (List Char)} {ops : List (Option Op)}
      (physical : Physical source.toList parts) (means : List.Forall₂ Means parts ops) :
      Reads source (numbered 1 ops)

inductive Rejects (source : String) : ReadError → Prop where
  | line {before after : List (List Char)} {ops : List (Option Op)} {line : List Char} {cause : ReadCause}
      (physical : Physical source.toList (before ++ line :: after))
      (means : List.Forall₂ Means before ops) (offends : Offends line cause) :
      Rejects source ⟨before.length + 1, cause⟩

theorem means_iff {line : List Char} {op? : Option Op} :
    Means line op? ↔ readWords (words (uncommented line)) = .ok op? := by
  rw [readWords_eq_ok_iff]
  constructor
  · rintro ⟨ws, carries, spells⟩
    rwa [words_uncommented_eq_iff.mpr carries]
  · exact fun spells => ⟨_, words_uncommented_eq_iff.mp rfl, spells⟩

theorem offends_iff {line : List Char} {cause : ReadCause} :
    Offends line cause ↔ readWords (words (uncommented line)) = .error cause := by
  rw [readWords_eq_error_iff]
  constructor
  · rintro ⟨ws, carries, faulty⟩
    rwa [words_uncommented_eq_iff.mpr carries]
  · exact fun faulty => ⟨_, words_uncommented_eq_iff.mp rfl, faulty⟩

theorem numbered_cons (first : Nat) (op? : Option Op) (ops : List (Option Op)) :
    numbered first (op? :: ops) = (op?.map (⟨first, ·⟩)).toList ++ numbered (first + 1) ops := by
  cases op? <;> simp [numbered]

theorem ops_numbered (first : Nat) (ops : List (Option Op)) :
    (numbered first ops).map ScriptLine.op = ops.filterMap id := by
  induction ops generalizing first with
  | nil => rfl
  | cons op? ops ih => cases op? <;> simp [numbered_cons, ih]

theorem readLines_append {before : List (List Char)} {ops : List (Option Op)}
    (means : List.Forall₂ Means before ops) (number : Nat) (after : List (List Char)) :
    readLines number (before ++ after) =
      (readLines (number + before.length) after).map (numbered number ops ++ ·) := by
  induction means generalizing number with
  | nil =>
    show readLines number after = (readLines number after).map id
    cases readLines number after <;> rfl
  | @cons line op? before ops first _ ih =>
    rw [List.cons_append, readLines, means_iff.mp first, ih, List.length_cons, Nat.add_right_comm,
      ← Nat.add_assoc]
    cases readLines (number + before.length + 1) after with
    | error error => rfl
    | ok later => simp [numbered_cons, Except.map, pure, Except.pure, bind, Except.bind]

theorem readLines_of_means {parts : List (List Char)} {ops : List (Option Op)}
    (means : List.Forall₂ Means parts ops) (number : Nat) :
    readLines number parts = .ok (numbered number ops) := by
  have read := readLines_append means number []
  rw [List.append_nil] at read
  rw [read]
  simp [readLines, Except.map]

theorem readLines_of_offends {before : List (List Char)} {ops : List (Option Op)} {line : List Char}
    {cause : ReadCause} (means : List.Forall₂ Means before ops) (offends : Offends line cause)
    (number : Nat) (after : List (List Char)) :
    readLines number (before ++ line :: after) = .error ⟨number + before.length, cause⟩ := by
  rw [readLines_append means, readLines, offends_iff.mp offends]
  rfl

theorem means_or_offends (parts : List (List Char)) :
    (∃ ops, List.Forall₂ Means parts ops) ∨
      ∃ before line after ops cause, parts = before ++ line :: after ∧
        List.Forall₂ Means before ops ∧ Offends line cause := by
  -- Each line of a text says something, or there is a first one that has a fault.
  induction parts with
  | nil => exact .inl ⟨[], .nil⟩
  | cons line rest ih =>
    cases read : readWords (words (uncommented line)) with
    | error cause => exact .inr ⟨[], line, rest, [], cause, rfl, .nil, offends_iff.mpr read⟩
    | ok op? =>
      have first := means_iff.mpr read
      obtain ⟨ops, means⟩ | ⟨before, other, after, ops, cause, rfl, means, offends⟩ := ih
      · exact .inl ⟨op? :: ops, .cons first means⟩
      · exact .inr ⟨line :: before, other, after, op? :: ops, cause, rfl, .cons first means, offends⟩

theorem readScript_of_reads {source : String} {script : List ScriptLine} (reads : Reads source script) :
    readScript source = .ok script := by
  obtain ⟨physical, means⟩ := reads
  rw [readScript, lines_eq_iff.mpr physical, readLines_of_means means]

theorem readScript_of_rejects {source : String} {error : ReadError} (rejects : Rejects source error) :
    readScript source = .error error := by
  obtain ⟨physical, means, offends⟩ := rejects
  rw [readScript, lines_eq_iff.mpr physical, readLines_of_offends means offends, Nat.add_comm]

theorem reads_or_rejects (source : String) :
    (∃ script, Reads source script) ∨ ∃ error, Rejects source error := by
  have physical : Physical source.toList (lines source.toList) := lines_eq_iff.mp rfl
  obtain ⟨ops, means⟩ | ⟨before, line, after, ops, cause, parts, means, offends⟩ :=
    means_or_offends (lines source.toList)
  · exact .inl ⟨_, .lines physical means⟩
  · exact .inr ⟨_, .line (parts ▸ physical) means offends⟩

theorem readScript_eq_ok_iff {source : String} {script : List ScriptLine} :
    readScript source = .ok script ↔ Reads source script := by
  refine ⟨fun read => ?_, readScript_of_reads⟩
  obtain ⟨made, reads⟩ | ⟨error, rejects⟩ := reads_or_rejects source
  · obtain rfl := Except.ok.inj ((readScript_of_reads reads).symm.trans read)
    exact reads
  · simp [readScript_of_rejects rejects] at read

theorem readScript_eq_error_iff {source : String} {error : ReadError} :
    readScript source = .error error ↔ Rejects source error := by
  refine ⟨fun refused => ?_, readScript_of_rejects⟩
  obtain ⟨script, reads⟩ | ⟨other, rejects⟩ := reads_or_rejects source
  · simp [readScript_of_reads reads] at refused
  · obtain rfl := Except.error.inj ((readScript_of_rejects rejects).symm.trans refused)
    exact rejects

end Reclaim
