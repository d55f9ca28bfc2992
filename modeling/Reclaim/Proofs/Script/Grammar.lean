import Mathlib.Data.List.Basic
import Reclaim.Proofs.Script.Numerals
import Reclaim.Script.Reader

/-! Which words form which operation, and what is wrong with words that form none. -/

set_option autoImplicit false

namespace Reclaim

inductive Forms : List String → Op → Prop where
  | newArray {name : String} : Forms ["new", "array", name] (.newContainer (.list .array) name)
  | newStruct {name : String} : Forms ["new", "struct", name] (.newContainer (.list .struct) name)
  | newMap {name : String} : Forms ["new", "map", name] (.newContainer .map name)
  | newBuffer {name text : String} {size : Nat} (writes : WritesCount text size) :
      Forms ["new", "buffer", name, text] (.newBuffer name size)
  | int {name text : String} {value : Int} (writes : WritesInteger text value) :
      Forms ["int", name, text] (.int name value)
  | bytes {name text : String} : Forms ["bytes", name, text] (.bytes name text)
  | pushOnce {name : String} : Forms ["push", name] (.push name 1)
  | push {name text : String} {count : Nat} (writes : WritesCount text count) :
      Forms ["push", name, text] (.push name count)
  | pop {name : String} : Forms ["pop", name] (.pop name)
  | append {owner child : String} : Forms ["append", owner, child] (.append owner child)
  | set {owner text child : String} {index : Nat} (writes : WritesCount text index) :
      Forms ["set", owner, text, child] (.set owner index child)
  | put {owner key child : String} : Forms ["put", owner, key, child] (.put owner key child)
  | remove {owner text : String} {index : Nat} (writes : WritesCount text index) :
      Forms ["remove", owner, text] (.remove owner index)
  | delete {owner key : String} : Forms ["delete", owner, key] (.delete owner key)
  | clear {owner : String} : Forms ["clear", owner] (.clear owner)
  | settle : Forms ["settle"] .settle

/-- How many operands go with a keyword; a new buffer has a size beside its kind and name. -/
def Keyword.arities : Keyword → List String → List Nat
  | .new, "buffer" :: _ => [3]
  | .new, _ => [2]
  | .push, _ => [1, 2]
  | .set, _ | .put, _ => [3]
  | .int, _ | .bytes, _ | .append, _ | .remove, _ | .delete, _ => [2]
  | .pop, _ | .clear, _ => [1]
  | .settle, _ => [0]

/-- What is wrong with words that form no operation: the keyword, else the number of operands, else
the kind of a new value or an operand that should be a number. -/
inductive Faulty : List String → ReadCause → Prop where
  | operation {word : String} {operands : List String}
      (unknown : ∀ keyword : Keyword, word ≠ keyword.text) :
      Faulty (word :: operands) (.unknownOperation word)
  | operands {keyword : Keyword} {operands : List String}
      (wrong : operands.length ∉ keyword.arities operands) :
      Faulty (keyword.text :: operands) (.operands keyword)
  | kind {word name : String} (unknown : word ∉ ["buffer", "array", "struct", "map"]) :
      Faulty ["new", word, name] (.unknownKind word)
  | size {name text : String} (invalid : ∀ size, ¬ WritesCount text size) :
      Faulty ["new", "buffer", name, text] (.invalidNumber text)
  | value {name text : String} (invalid : ∀ value, ¬ WritesInteger text value) :
      Faulty ["int", name, text] (.invalidNumber text)
  | count {name text : String} (invalid : ∀ count, ¬ WritesCount text count) :
      Faulty ["push", name, text] (.invalidNumber text)
  | setIndex {owner text child : String} (invalid : ∀ index, ¬ WritesCount text index) :
      Faulty ["set", owner, text, child] (.invalidNumber text)
  | removeIndex {owner text : String} (invalid : ∀ index, ¬ WritesCount text index) :
      Faulty ["remove", owner, text] (.invalidNumber text)

inductive Spells : List String → Option Op → Prop where
  | nothing : Spells [] none
  | operation {ws : List String} {op : Op} (forms : Forms ws op) : Spells ws (some op)

theorem readCount_eq_ok {text : String} {number : Nat} (writes : WritesCount text number) :
    readCount text = .ok number := by
  simp [readCount, readCount?_eq_some_iff.mpr writes]

theorem readCount_eq_error {text : String} (invalid : ∀ number, ¬ WritesCount text number) :
    readCount text = .error (.invalidNumber text) := by
  have unread : readCount? text = none :=
    Option.eq_none_iff_forall_ne_some.mpr fun number reads => invalid number (readCount?_eq_some_iff.mp reads)
  simp [readCount, unread]

theorem readInteger_eq_ok {text : String} {value : Int} (writes : WritesInteger text value) :
    readInteger text = .ok value := by
  simp [readInteger, readInteger?_eq_some_iff.mpr writes]

theorem readInteger_eq_error {text : String} (invalid : ∀ value, ¬ WritesInteger text value) :
    readInteger text = .error (.invalidNumber text) := by
  have unread : readInteger? text = none :=
    Option.eq_none_iff_forall_ne_some.mpr fun value reads => invalid value (readInteger?_eq_some_iff.mp reads)
  simp [readInteger, unread]

theorem readWords_keyword (keyword : Keyword) (operands : List String) :
    readWords (keyword.text :: operands) = (readOp keyword operands).map some := by
  simp [readWords, Keyword.ofText?_text]

theorem Keyword.ofText?_eq_none_iff {word : String} :
    Keyword.ofText? word = none ↔ ∀ keyword : Keyword, word ≠ keyword.text := by
  simp only [Keyword.ofText?, List.find?_eq_none, beq_iff_eq]
  refine ⟨fun unknown keyword same => unknown keyword ?_ same.symm, fun unknown keyword _ same =>
    unknown keyword same.symm⟩
  cases keyword <;> simp [Keyword.all]

theorem readOp_of_wrong {keyword : Keyword} {operands : List String}
    (wrong : operands.length ∉ keyword.arities operands) :
    readOp keyword operands = .error (.operands keyword) := by
  fun_cases readOp keyword operands <;> simp_all [Keyword.arities]

theorem readWords_of_forms {ws : List String} {op : Op} (forms : Forms ws op) :
    readWords ws = .ok (some op) := by
  cases forms with
  | newArray | newStruct | newMap => exact readWords_keyword .new _
  | newBuffer writes => exact (readWords_keyword .new _).trans (by rw [readOp, readCount_eq_ok writes]; rfl)
  | int writes => exact (readWords_keyword .int _).trans (by rw [readOp, readInteger_eq_ok writes]; rfl)
  | bytes => exact readWords_keyword .bytes _
  | pushOnce => exact readWords_keyword .push _
  | push writes => exact (readWords_keyword .push _).trans (by rw [readOp, readCount_eq_ok writes]; rfl)
  | pop => exact readWords_keyword .pop _
  | append => exact readWords_keyword .append _
  | set writes => exact (readWords_keyword .set _).trans (by rw [readOp, readCount_eq_ok writes]; rfl)
  | put => exact readWords_keyword .put _
  | remove writes => exact (readWords_keyword .remove _).trans (by rw [readOp, readCount_eq_ok writes]; rfl)
  | delete => exact readWords_keyword .delete _
  | clear => exact readWords_keyword .clear _
  | settle => exact readWords_keyword .settle _

theorem Kind.ofName?_eq_none {word : String} (unknown : word ∉ ["buffer", "array", "struct", "map"]) :
    Kind.ofName? word = none := by
  simp only [List.mem_cons, List.not_mem_nil, or_false, not_or] at unknown
  simp [Kind.ofName?, Kind.all, Kind.name, Ne.symm unknown.2.1, Ne.symm unknown.2.2.1,
    Ne.symm unknown.2.2.2]

theorem readWords_of_faulty {ws : List String} {cause : ReadCause} (faulty : Faulty ws cause) :
    readWords ws = .error cause := by
  cases faulty with
  | operation unknown => simp [readWords, Keyword.ofText?_eq_none_iff.mpr unknown]
  | operands wrong => rw [readWords_keyword, readOp_of_wrong wrong]; rfl
  | kind unknown =>
    refine (readWords_keyword .new _).trans ?_
    have other := unknown
    simp only [List.mem_cons, not_or] at other
    simp [readOp, other.1, Kind.ofName?_eq_none unknown, Except.map]
  | size invalid => exact (readWords_keyword .new _).trans (by rw [readOp, readCount_eq_error invalid]; rfl)
  | value invalid => exact (readWords_keyword .int _).trans (by rw [readOp, readInteger_eq_error invalid]; rfl)
  | count invalid => exact (readWords_keyword .push _).trans (by rw [readOp, readCount_eq_error invalid]; rfl)
  | setIndex invalid => exact (readWords_keyword .set _).trans (by rw [readOp, readCount_eq_error invalid]; rfl)
  | removeIndex invalid =>
    exact (readWords_keyword .remove _).trans (by rw [readOp, readCount_eq_error invalid]; rfl)

inductive Judged (ws : List String) : Prop where
  | forms {op : Op} (forms : Forms ws op)
  | faulty {cause : ReadCause} (faulty : Faulty ws cause)

theorem Judged.of_number {Number : Type} {writes : Number → Prop} {ws : List String} {op : Number → Op}
    {cause : ReadCause} (forms : ∀ number, writes number → Forms ws (op number))
    (faulty : (∀ number, ¬ writes number) → Faulty ws cause) : Judged ws := by
  by_cases written : ∃ number, writes number
  · obtain ⟨number, writes⟩ := written
    exact .forms (forms number writes)
  · exact .faulty (faulty (not_exists.mp written))

theorem judged_new {operands : List String} (right : operands.length ∈ Keyword.new.arities operands) :
    Judged ("new" :: operands) := by
  by_cases buffer : operands.head? = some "buffer"
  · obtain ⟨rest, rfl⟩ := List.head?_eq_some_iff.mp buffer
    obtain ⟨name, text, rfl⟩ := List.length_eq_two.mp (Nat.succ.inj (List.mem_singleton.mp right))
    exact .of_number (fun _ => .newBuffer) .size
  · have two : operands.length = 2 := by
      unfold Keyword.arities at right
      split at right <;> simp_all
    obtain ⟨word, name, rfl⟩ := List.length_eq_two.mp two
    by_cases known : word ∈ ["buffer", "array", "struct", "map"]
    · simp only [List.mem_cons, List.not_mem_nil, or_false] at known
      obtain rfl | rfl | rfl | rfl := known
      · exact absurd rfl buffer
      · exact .forms .newArray
      · exact .forms .newStruct
      · exact .forms .newMap
    · exact .faulty (.kind known)

theorem judged_of_right {keyword : Keyword} {operands : List String}
    (right : operands.length ∈ keyword.arities operands) : Judged (keyword.text :: operands) := by
  cases keyword with
  | new => exact judged_new right
  | int =>
    obtain ⟨name, text, rfl⟩ := List.length_eq_two.mp (List.mem_singleton.mp right)
    exact .of_number (fun _ => .int) .value
  | bytes =>
    obtain ⟨name, text, rfl⟩ := List.length_eq_two.mp (List.mem_singleton.mp right)
    exact .forms .bytes
  | push =>
    obtain one | two := List.mem_pair.mp right
    · obtain ⟨name, rfl⟩ := List.length_eq_one_iff.mp one
      exact .forms .pushOnce
    · obtain ⟨name, text, rfl⟩ := List.length_eq_two.mp two
      exact .of_number (fun _ => .push) .count
  | pop =>
    obtain ⟨name, rfl⟩ := List.length_eq_one_iff.mp (List.mem_singleton.mp right)
    exact .forms .pop
  | append =>
    obtain ⟨owner, child, rfl⟩ := List.length_eq_two.mp (List.mem_singleton.mp right)
    exact .forms .append
  | set =>
    obtain ⟨owner, text, child, rfl⟩ := List.length_eq_three.mp (List.mem_singleton.mp right)
    exact .of_number (fun _ => .set) .setIndex
  | put =>
    obtain ⟨owner, key, child, rfl⟩ := List.length_eq_three.mp (List.mem_singleton.mp right)
    exact .forms .put
  | remove =>
    obtain ⟨owner, text, rfl⟩ := List.length_eq_two.mp (List.mem_singleton.mp right)
    exact .of_number (fun _ => .remove) .removeIndex
  | delete =>
    obtain ⟨owner, key, rfl⟩ := List.length_eq_two.mp (List.mem_singleton.mp right)
    exact .forms .delete
  | clear =>
    obtain ⟨owner, rfl⟩ := List.length_eq_one_iff.mp (List.mem_singleton.mp right)
    exact .forms .clear
  | settle =>
    obtain rfl := List.length_eq_zero_iff.mp (List.mem_singleton.mp right)
    exact .forms .settle

theorem judged (word : String) (operands : List String) : Judged (word :: operands) := by
  by_cases known : ∃ keyword : Keyword, word = keyword.text
  · obtain ⟨keyword, rfl⟩ := known
    by_cases right : operands.length ∈ keyword.arities operands
    · exact judged_of_right right
    · exact .faulty (.operands right)
  · exact .faulty (.operation (not_exists.mp known))

theorem readWords_eq_ok_iff {ws : List String} {op? : Option Op} :
    readWords ws = .ok op? ↔ Spells ws op? := by
  constructor
  · intro reads
    cases ws with
    | nil =>
      obtain rfl : none = op? := Except.ok.inj reads
      exact .nothing
    | cons word operands =>
      cases judged word operands with
      | forms forms =>
        obtain rfl := Except.ok.inj ((readWords_of_forms forms).symm.trans reads)
        exact .operation forms
      | faulty faulty => simp [readWords_of_faulty faulty] at reads
  · intro spells
    cases spells with
    | nothing => rfl
    | operation forms => exact readWords_of_forms forms

theorem readWords_eq_error_iff {ws : List String} {cause : ReadCause} :
    readWords ws = .error cause ↔ Faulty ws cause := by
  refine ⟨fun refused => ?_, readWords_of_faulty⟩
  cases ws with
  | nil => simp [readWords] at refused
  | cons word operands =>
    cases judged word operands with
    | forms forms => simp [readWords_of_forms forms] at refused
    | faulty faulty =>
      obtain rfl := Except.error.inj ((readWords_of_faulty faulty).symm.trans refused)
      exact faulty

end Reclaim
