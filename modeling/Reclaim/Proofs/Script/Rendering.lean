import Reclaim.Proofs.Script.Reading

/-! Writing operations down. An operation has a spelling exactly if its names, keys and texts are
words and its numbers have numerals; every layout of spellings on lines reads back as the operations
spelled. -/

set_option autoImplicit false

namespace Reclaim

structure Plain (word : String) : Prop extends Unparted word where
  uncommented : '#' ∉ word.toList

structure Spelling (op : Op) where
  ws : List String
  forms : Forms ws op
  plain : ∀ word ∈ ws, Plain word

namespace Op

def texts : Op → List String
  | .newContainer _ name | .newBuffer name _ | .int name _ | .push name _ | .pop name => [name]
  | .bytes name text => [name, text]
  | .append owner child | .set owner _ child => [owner, child]
  | .put owner key child => [owner, key, child]
  | .remove owner _ | .clear owner => [owner]
  | .delete owner key => [owner, key]
  | .settle => []

def Fits : Op → Prop
  | .newBuffer _ number | .push _ number | .set _ number _ | .remove _ number => number < 2 ^ 64
  | .int _ value => -2 ^ 127 ≤ value ∧ value < 2 ^ 127
  | _ => True

structure Writable (op : Op) : Prop where
  plain : ∀ text ∈ op.texts, Plain text
  fits : op.Fits

/-- The words of an operation, its numbers without a plus sign or leading zeros. -/
def words : Op → List String
  | .newContainer kind name => ["new", kind.name, name]
  | .newBuffer name size => ["new", "buffer", name, size.repr]
  | .int name value => ["int", name, value.repr]
  | .bytes name text => ["bytes", name, text]
  | .push name count => ["push", name, count.repr]
  | .pop name => ["pop", name]
  | .append owner child => ["append", owner, child]
  | .set owner index child => ["set", owner, index.repr, child]
  | .put owner key child => ["put", owner, key, child]
  | .remove owner index => ["remove", owner, index.repr]
  | .delete owner key => ["delete", owner, key]
  | .clear owner => ["clear", owner]
  | .settle => ["settle"]

theorem forms_words {op : Op} (fits : op.Fits) : Forms op.words op := by
  cases op with
  | newContainer kind name =>
    match kind with
    | .list .array => exact .newArray
    | .list .struct => exact .newStruct
    | .map => exact .newMap
  | newBuffer => exact .newBuffer (writesCount_repr fits)
  | int => exact .int (writesInteger_repr fits.1 fits.2)
  | bytes => exact .bytes
  | push => exact .push (writesCount_repr fits)
  | pop => exact .pop
  | append => exact .append
  | set => exact .set (writesCount_repr fits)
  | put => exact .put
  | remove => exact .remove (writesCount_repr fits)
  | delete => exact .delete
  | clear => exact .clear
  | settle => exact .settle

end Op

instance {word : String} : Decidable (Plain word) :=
  decidable_of_iff (word.toList ≠ [] ∧ word.toList.all (!isBlank ·) = true ∧ '#' ∉ word.toList)
    ⟨fun ⟨nonempty, solid, uncommented⟩ => ⟨⟨nonempty, by simpa using solid⟩, uncommented⟩,
      fun plain => ⟨plain.nonempty, by simpa using plain.solid, plain.uncommented⟩⟩

theorem plain_of_digits {word : String} (nonempty : word.toList ≠ [])
    (digits : ∀ c ∈ word.toList, c.isDigit = true ∨ c = '-') : Plain word where
  nonempty := nonempty
  solid c member := by
    obtain digit | rfl := digits c member
    -- The digits lie between two ranges of blanks.
    · simp only [Char.isDigit, Bool.and_eq_true, decide_eq_true_eq, UInt32.le_iff_toNat_le] at digit
      obtain ⟨least, most⟩ : 48 ≤ c.toNat ∧ c.toNat ≤ 57 := digit
      simp only [isBlank, blankRanges, List.any_cons, List.any_nil, Bool.or_false, Bool.or_eq_false_iff,
        Bool.and_eq_false_iff, decide_eq_false_iff_not]
      omega
    · decide
  uncommented sign := by
    obtain digit | minus := digits '#' sign
    · exact absurd digit (by decide)
    · exact absurd minus (by decide)

theorem plain_repr (number : Nat) : Plain number.repr := by
  apply plain_of_digits
  · rw [Nat.toList_repr]
    exact Nat.toDigits_ne_nil
  · intro c member
    rw [Nat.toList_repr] at member
    exact .inl (Nat.isDigit_of_mem_toDigits (by decide) (by decide) member)

theorem plain_repr_int (value : Int) : Plain value.repr := by
  cases value with
  | ofNat number => exact plain_repr number
  | negSucc number =>
    have written : (Int.negSucc number).repr.toList = '-' :: Nat.toDigits 10 (number + 1) := by
      rw [show (Int.negSucc number).repr = "-" ++ (number + 1).repr from rfl, String.toList_append,
        Nat.toList_repr]
      rfl
    apply plain_of_digits <;> rw [written]
    · simp
    · intro c member
      obtain minus | digit := List.mem_cons.mp member
      · exact .inr minus
      · exact .inl (Nat.isDigit_of_mem_toDigits (by decide) (by decide) digit)

theorem Op.plain_words {op : Op} (plain : ∀ text ∈ op.texts, Plain text) :
    ∀ word ∈ op.words, Plain word := by
  have known (kind : Kind) : Plain kind.name := by
    match kind with
    | .list .array | .list .struct | .map => decide
  cases op <;> simp_all +decide [words, texts, plain_repr, plain_repr_int]

theorem Forms.texts_subset {ws : List String} {op : Op} (forms : Forms ws op) : op.texts ⊆ ws := by
  cases forms <;> simp [Op.texts]

theorem Forms.fits {ws : List String} {op : Op} (forms : Forms ws op) : op.Fits := by
  cases forms with
  | newBuffer writes | push writes | set writes | remove writes => exact writes.fits
  | int writes => exact ⟨writes.least, writes.most⟩
  | pushOnce => exact Nat.one_lt_two_pow (by decide)
  | _ => trivial

theorem Op.nonempty_spelling_iff {op : Op} : Nonempty (Spelling op) ↔ op.Writable := by
  constructor
  · rintro ⟨ws, forms, plain⟩
    exact ⟨fun text member => plain text (forms.texts_subset member), forms.fits⟩
  · intro writable
    exact ⟨op.words, forms_words writable.fits, plain_words writable.plain⟩

structure Gap where
  chars : List Char
  blank : ∀ c ∈ chars, isBlank c = true
  unbroken : '\n' ∉ chars

/-- How a line is laid out around its words. A return before the line feed is white space like any
other, or ends the comment. -/
structure Layout where
  before : Gap
  /-- The gap after a word, by the number of words that are left. -/
  between : Nat → Gap
  parting : ∀ left, (between left).chars ≠ []
  after : Gap
  comment : Option (List Char)
  unbroken : ∀ text ∈ comment, '\n' ∉ text
  returned : Bool

namespace Layout

def spread (layout : Layout) : List String → List Char
  | [] => []
  | [word] => word.toList
  | word :: rest => word.toList ++ (layout.between rest.length).chars ++ layout.spread rest

def ending (layout : Layout) : List Char :=
  layout.comment.elim [] ('#' :: ·) ++ if layout.returned then ['\r'] else []

def write (layout : Layout) (ws : List String) : List Char :=
  layout.before.chars ++ layout.spread ws ++ layout.after.chars ++ layout.ending

end Layout

theorem Parted.blanks {gap : List Char} (blank : ∀ c ∈ gap, isBlank c = true) : Parted gap [] := by
  induction gap with
  | nil => exact .nil
  | cons c gap ih => exact .blank (blank c (by simp)) (ih fun d member => blank d (by simp [member]))

theorem Parted.after_gap {gap line : List Char} {ws : List String}
    (blank : ∀ c ∈ gap, isBlank c = true) (parted : Parted line ws) : Parted (gap ++ line) ws := by
  induction gap with
  | nil => exact parted
  | cons c gap ih => exact .blank (blank c (by simp)) (ih fun d member => blank d (by simp [member]))

theorem Parted.cons {word : String} {gap line : List Char} {ws : List String} (unparted : Unparted word)
    (some : gap ≠ []) (blank : ∀ c ∈ gap, isBlank c = true) (parted : Parted line ws) :
    Parted (word.toList ++ gap ++ line) (word :: ws) := by
  cases gap with
  | nil => exact absurd rfl some
  | cons c gap =>
    rw [List.append_assoc]
    exact .word unparted (blank c (by simp)) (parted.after_gap fun d member => blank d (by simp [member]))

theorem Parted.before_gap {gap line : List Char} {ws : List String}
    (blank : ∀ c ∈ gap, isBlank c = true) (parted : Parted line ws) : Parted (line ++ gap) ws := by
  induction parted with
  | nil => exact .blanks blank
  | blank first _ ih => exact .blank first ih
  | @last word unparted =>
    by_cases none : gap = []
    · rw [none, List.append_nil]
      exact .last unparted
    · have parted := Parted.cons unparted none blank .nil
      rwa [List.append_nil] at parted
  | word unparted first _ ih =>
    rw [List.append_assoc, List.cons_append]
    exact .word unparted first ih

theorem Layout.parted_spread (layout : Layout) {ws : List String}
    (plain : ∀ word ∈ ws, Plain word) : Parted (layout.spread ws) ws := by
  fun_induction layout.spread ws with
  | case1 => exact .nil
  | case2 word => exact .last (plain word (by simp)).toUnparted
  | case3 word rest _ ih =>
    exact .cons (plain word (by simp)).toUnparted (layout.parting _) (layout.between _).blank
      (ih fun other member => plain other (by simp [member]))

/-- A character of a line that its layout does not put there is in a word. -/
theorem Layout.mem_spread (layout : Layout) {ws : List String} {c : Char}
    (member : c ∈ layout.spread ws) :
    (∃ word ∈ ws, c ∈ word.toList) ∨ ∃ left, c ∈ (layout.between left).chars := by
  fun_induction layout.spread ws with
  | case1 => cases member
  | case2 word => exact .inl ⟨word, by simp, member⟩
  | case3 word rest _ ih =>
    simp only [List.mem_append] at member
    obtain (found | found) | found := member
    · exact .inl ⟨word, by simp, found⟩
    · exact .inr ⟨_, found⟩
    · obtain ⟨other, listed, found⟩ | found := ih found
      · exact .inl ⟨other, by simp [listed], found⟩
      · exact .inr found

theorem Gap.unsigned (gap : Gap) : '#' ∉ gap.chars := fun sign =>
  absurd (gap.blank '#' sign) (by decide)

theorem Layout.carries (layout : Layout) {ws : List String} (plain : ∀ word ∈ ws, Plain word) :
    Carries (layout.write ws) ws := by
  have parted : Parted (layout.before.chars ++ layout.spread ws ++ layout.after.chars) ws :=
    ((layout.parted_spread plain).after_gap layout.before.blank).before_gap layout.after.blank
  have free : '#' ∉ layout.before.chars ++ layout.spread ws ++ layout.after.chars := by
    simp only [List.mem_append, not_or]
    refine ⟨⟨layout.before.unsigned, fun sign => ?_⟩, layout.after.unsigned⟩
    obtain ⟨word, listed, sign⟩ | ⟨left, sign⟩ := layout.mem_spread sign
    · exact (plain word listed).uncommented sign
    · exact (layout.between left).unsigned sign
  unfold write ending
  cases layout.comment with
  | some comment => exact .commented free parted
  | none =>
    cases layout.returned with
    | false =>
      simp only [Option.elim_none, Bool.false_eq_true, if_false, List.append_nil]
      exact .bare free parted
    | true =>
      exact .bare (by simpa using free) (parted.before_gap (List.forall_mem_singleton.mpr (by decide)))

theorem Layout.unbroken_write (layout : Layout) {ws : List String} (plain : ∀ word ∈ ws, Plain word) :
    '\n' ∉ layout.write ws := by
  have unbroken_spread : '\n' ∉ layout.spread ws := by
    intro feed
    obtain ⟨word, listed, feed⟩ | ⟨left, feed⟩ := layout.mem_spread feed
    · exact absurd ((plain word listed).solid '\n' feed) (by decide)
    · exact (layout.between left).unbroken feed
  have unbroken_ending : '\n' ∉ layout.ending := by
    unfold ending
    cases found : layout.comment with
    | none => cases layout.returned <;> simp
    | some comment =>
      have unbroken := layout.unbroken comment found
      cases layout.returned <;> simpa using unbroken
  simp [write, layout.before.unbroken, unbroken_spread, layout.after.unbroken, unbroken_ending]

structure Row where
  layout : Layout
  content : Option ((op : Op) × Spelling op)

namespace Row

def op? (row : Row) : Option Op :=
  row.content.map (·.1)

def ws (row : Row) : List String :=
  row.content.elim [] (·.2.ws)

def text (row : Row) : List Char :=
  row.layout.write row.ws

theorem plain (row : Row) : ∀ word ∈ row.ws, Plain word := by
  unfold ws
  cases row.content with
  | none => simp
  | some content => exact content.2.plain

theorem means (row : Row) : Means row.text row.op? := by
  refine ⟨row.ws, row.layout.carries row.plain, ?_⟩
  unfold ws op?
  cases row.content with
  | none => exact .nothing
  | some content => exact .operation content.2.forms

end Row

def sheet (rows : List Row) : String :=
  String.ofList (['\n'].intercalate (rows.map Row.text))

theorem physical_sheet {rows : List Row} (some : rows ≠ []) :
    Physical (sheet rows).toList (rows.map Row.text) where
  nonempty := by simpa using some
  unbroken := by simpa using fun row _ => row.layout.unbroken_write row.plain
  joined := by rw [sheet, String.toList_ofList]

/-- A sheet reads back as its operations, each with the number of its row. -/
theorem readScript_sheet (rows : List Row) :
    readScript (sheet rows) = .ok (numbered 1 (rows.map Row.op?)) := by
  by_cases some : rows = []
  · subst some
    rfl
  · refine readScript_of_reads (.lines (physical_sheet some) ?_)
    rw [List.forall₂_map_left_iff, List.forall₂_map_right_iff, List.forall₂_same]
    exact fun row _ => row.means

/-- Scripts are the texts whose lines say something or nothing; another text is refused for the first
line with a fault. The operations that have spellings are those whose texts are words and whose numbers
are within range, and however their spellings are laid out on lines, reading gives them back. -/
theorem readScript_exact :
    (∀ source script, readScript source = .ok script ↔ Reads source script) ∧
      (∀ source error, readScript source = .error error ↔ Rejects source error) ∧
      (∀ op : Op, Nonempty (Spelling op) ↔ op.Writable) ∧
      ∀ rows : List Row, readScript (sheet rows) = .ok (numbered 1 (rows.map Row.op?)) ∧
        (numbered 1 (rows.map Row.op?)).map ScriptLine.op = rows.filterMap Row.op? :=
  ⟨fun _ _ => readScript_eq_ok_iff, fun _ _ => readScript_eq_error_iff, fun _ => Op.nonempty_spelling_iff,
    fun rows => ⟨readScript_sheet rows, by rw [ops_numbered, List.filterMap_map]; rfl⟩⟩

example : readScript "# header\r\n new  array a # trailing\n\n\tpush a +02\r\nsettle" =
    .ok [⟨2, .newContainer (.list .array) "a"⟩, ⟨4, .push "a" 2⟩, ⟨5, .settle⟩] := by
  decide +kernel

end Reclaim
