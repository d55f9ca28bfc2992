import Reclaim.Count

/-! Numerals: an optional sign and one or more ASCII digits, within the range of their type.
Counts, sizes and indexes are 64-bit words without a minus sign; integers have 128 bits. -/

set_option autoImplicit false

namespace Reclaim

def pushDigit (value : Nat) (c : Char) : Nat :=
  10 * value + (c.toNat - '0'.toNat)

def digits? (text : List Char) : Option Nat :=
  if !text.isEmpty && text.all Char.isDigit then some (text.foldl pushDigit 0) else none

def unsigned? : List Char → Option Nat
  | '+' :: rest => digits? rest
  | text => digits? text

def signed? : List Char → Option Int
  | '-' :: rest => (digits? rest).map fun magnitude => -magnitude
  | text => (unsigned? text).map Int.ofNat

def readCount? (text : String) : Option Nat :=
  (unsigned? text.toList).filter (· ≤ maxCount)

def isInteger (value : Int) : Bool :=
  let bound := Int.ofNat (Nat.pow 2 127)
  value < bound && -bound ≤ value

def readInteger? (text : String) : Option Int :=
  (signed? text.toList).filter isInteger

end Reclaim
