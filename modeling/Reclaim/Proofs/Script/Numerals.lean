import Mathlib.Algebra.Group.Int.Defs
import Mathlib.Algebra.Group.Nat.Defs
import Reclaim.Script.Numeral

/-! Which texts are numerals, and of which numbers. A numeral has one or more ASCII digits in base
ten; leading zeros change nothing. Counts may have a plus sign before them, integers either sign. -/

set_option autoImplicit false

namespace Reclaim

structure Decimal (digits : List Char) (number : Nat) : Prop where
  nonempty : digits ≠ []
  ascii : ∀ c ∈ digits, '0' ≤ c ∧ c ≤ '9'
  value : Nat.ofDigitChars 10 digits 0 = number

inductive Unsigned : List Char → Nat → Prop where
  | plain {digits : List Char} {number : Nat} (decimal : Decimal digits number) :
      Unsigned digits number
  | plus {digits : List Char} {number : Nat} (decimal : Decimal digits number) :
      Unsigned ('+' :: digits) number

inductive Signed : List Char → Int → Prop where
  | unsigned {text : List Char} {number : Nat} (unsigned : Unsigned text number) :
      Signed text number
  | minus {digits : List Char} {number : Nat} (decimal : Decimal digits number) :
      Signed ('-' :: digits) (-number)

structure WritesCount (text : String) (number : Nat) : Prop where
  numeral : Unsigned text.toList number
  fits : number < 2 ^ 64

structure WritesInteger (text : String) (value : Int) : Prop where
  numeral : Signed text.toList value
  least : -2 ^ 127 ≤ value
  most : value < 2 ^ 127

theorem digits?_eq_some_iff {text : List Char} {number : Nat} :
    digits? text = some number ↔ Decimal text number := by
  have value : text.foldl pushDigit 0 = Nat.ofDigitChars 10 text 0 := by
    rw [Nat.ofDigitChars_eq_foldl]
    rfl
  have ascii : text.all Char.isDigit = true ↔ ∀ c ∈ text, '0' ≤ c ∧ c ≤ '9' := by
    simp [Char.isDigit, Char.le_def]
  unfold digits?
  rw [value]
  constructor
  · intro reads
    split at reads
    next digits =>
      simp only [Bool.and_eq_true, Bool.not_eq_true', List.isEmpty_eq_false_iff] at digits
      exact ⟨digits.1, ascii.mp digits.2, Option.some.inj reads⟩
    next => simp at reads
  · intro decimal
    simp [decimal.nonempty, ascii.mpr decimal.ascii, decimal.value]

theorem Decimal.head_ne {c : Char} {rest : List Char} {number : Nat}
    (decimal : Decimal (c :: rest) number) : c ≠ '+' ∧ c ≠ '-' := by
  have digit := (decimal.ascii c (by simp)).1
  constructor <;> (rintro rfl; revert digit; decide)

theorem unsigned?_eq_some_iff {text : List Char} {number : Nat} :
    unsigned? text = some number ↔ Unsigned text number := by
  constructor
  · intro reads
    unfold unsigned? at reads
    split at reads
    · exact .plus (digits?_eq_some_iff.mp reads)
    · exact .plain (digits?_eq_some_iff.mp reads)
  · intro unsigned
    cases unsigned with
    | plus decimal => exact digits?_eq_some_iff.mpr decimal
    | plain decimal =>
      unfold unsigned?
      split
      · exact absurd rfl decimal.head_ne.1
      · exact digits?_eq_some_iff.mpr decimal

theorem signed?_eq_some_iff {text : List Char} {value : Int} :
    signed? text = some value ↔ Signed text value := by
  constructor
  · intro reads
    unfold signed? at reads
    split at reads
    · simp only [Option.pure_def, Option.bind_eq_bind, Option.map_bind, Option.bind_eq_some_iff,
        Function.comp_apply, Option.map_some, Option.some.injEq] at reads
      obtain ⟨number, digits, rfl⟩ := reads
      exact .minus (digits?_eq_some_iff.mp digits)
    · obtain ⟨number, digits, rfl⟩ := Option.map_eq_some_iff.mp reads
      exact .unsigned (unsigned?_eq_some_iff.mp digits)
  · intro signed
    cases signed with
    | minus decimal => simp [signed?, digits?_eq_some_iff.mpr decimal]
    | unsigned unsigned =>
      unfold signed?
      split
      · -- A text with a minus sign is no unsigned numeral.
        cases unsigned with
        | plain decimal => exact absurd rfl decimal.head_ne.2
      · simp [unsigned?_eq_some_iff.mpr unsigned]

theorem readCount?_eq_some_iff {text : String} {number : Nat} :
    readCount? text = some number ↔ WritesCount text number := by
  have largest : number ≤ maxCount ↔ number < 2 ^ 64 := Nat.le_sub_one_iff_lt (by decide)
  simp only [readCount?, Option.filter_eq_some_iff, unsigned?_eq_some_iff, decide_eq_true_eq, largest]
  exact ⟨fun ⟨numeral, fits⟩ => ⟨numeral, fits⟩, fun ⟨numeral, fits⟩ => ⟨numeral, fits⟩⟩

theorem isInteger_iff {value : Int} :
    isInteger value = true ↔ -2 ^ 127 ≤ value ∧ value < 2 ^ 127 := by
  simp only [isInteger, Bool.and_eq_true, decide_eq_true_eq]
  exact and_comm

theorem readInteger?_eq_some_iff {text : String} {value : Int} :
    readInteger? text = some value ↔ WritesInteger text value := by
  simp only [readInteger?, Option.filter_eq_some_iff, signed?_eq_some_iff, isInteger_iff]
  exact ⟨fun ⟨numeral, least, most⟩ => ⟨numeral, least, most⟩,
    fun ⟨numeral, least, most⟩ => ⟨numeral, least, most⟩⟩

theorem decimal_toDigits (number : Nat) : Decimal (Nat.toDigits 10 number) number where
  nonempty := Nat.toDigits_ne_nil
  ascii c member := by
    have digit := Nat.isDigit_of_mem_toDigits (by decide) (by decide) member
    simpa [Char.isDigit, Char.le_def] using digit
  value := Nat.ofDigitChars_ten_toDigits

theorem writesCount_repr {number : Nat} (fits : number < 2 ^ 64) : WritesCount number.repr number where
  numeral := by
    rw [Nat.toList_repr]
    exact .plain (decimal_toDigits number)
  fits := fits

theorem writesInteger_repr {value : Int} (least : -2 ^ 127 ≤ value) (most : value < 2 ^ 127) :
    WritesInteger value.repr value where
  numeral := by
    cases value with
    | ofNat number =>
      rw [show (Int.ofNat number).repr = number.repr from rfl, Nat.toList_repr]
      exact .unsigned (.plain (decimal_toDigits number))
    | negSucc number =>
      rw [show (Int.negSucc number).repr = "-" ++ (number + 1).repr from rfl, String.toList_append,
        Nat.toList_repr]
      exact .minus (decimal_toDigits (number + 1))
  least := least
  most := most

end Reclaim
