import Chomsky.Text.Blank

/-!
# Decimal numerals

A numeral is one or more ASCII digits, after at most one plus sign. Readers bound its value, not
the number of its digits, so any number of leading zeros is allowed.
-/

namespace Chomsky.Text

def digit? (c : Char) : Option Nat :=
  if '0' ≤ c ∧ c ≤ '9' then some (c.toNat - '0'.toNat) else none

/-- The value of the digits, read after digits of value `value`. -/
def digitsFrom? (value : Nat) : List Char → Option Nat
  | [] => some value
  | c :: rest => (digit? c).bind fun d => digitsFrom? (10 * value + d) rest

/-- The value of one or more digits. -/
def digits? : List Char → Option Nat
  | [] => none
  | text => digitsFrom? 0 text

/-- The value of digits after at most one plus sign. -/
def numeral? : List Char → Option Nat
  | '+' :: text => digits? text
  | text => digits? text

/-- The value of a numeral, if it is at most `limit`. -/
def numeralUpTo? (limit : Nat) (text : List Char) : Option Nat :=
  (numeral? text).filter (· ≤ limit)

/-- A bounded numeral is a numeral whose value is within the bound. -/
theorem numeralUpTo?_eq_some {limit n : Nat} {text : List Char} :
    numeralUpTo? limit text = some n ↔ numeral? text = some n ∧ n ≤ limit := by
  simp [numeralUpTo?, Option.filter_eq_some_iff]

def maxWord32 : Nat := 4294967295

def maxWord64 : Nat := 18446744073709551615

end Chomsky.Text
