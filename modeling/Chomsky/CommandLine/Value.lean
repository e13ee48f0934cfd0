import Chomsky.Text.Numeral

/-!
# Values on the command line

How the text of an argument is read. Counts are decimal numerals of 64 bits; the bound on the
number of derivation steps may have blanks around it, other counts may not. The amount of sentences
is read as a signed number first, so that a minus sign before zero does no harm, and has 32 bits.
-/

namespace Chomsky.CommandLine

/-- A text that is no bound on the number of steps. -/
structure InvalidStepBound where
  text : String
  deriving DecidableEq, Repr

/-- The wording of an invalid bound. It shows the text as it was given, blanks included. -/
def InvalidStepBound.message (fault : InvalidStepBound) : String :=
  "ill-formatted number of steps `" ++ fault.text ++ "` for CNF derivation"

def stepBound (text : String) : Except InvalidStepBound Nat :=
  match Text.numeralUpTo? Text.maxWord64 (Text.trim text.toList) with
  | some n => .ok n
  | none => .error ⟨text⟩

def count? (text : String) : Option Nat :=
  Text.numeralUpTo? Text.maxWord64 text.toList

/-- A count of 32 bits, with a sign. -/
def amount? (text : String) : Option Nat :=
  match text.toList with
  | '-' :: digits => (Text.digits? digits).filter (· = 0)
  | text => Text.numeralUpTo? Text.maxWord32 text

/-- What an argument stands for. -/
inductive ValueKind where
  | path
  | text
  | stepBound
  | count
  | amount
  deriving DecidableEq, Repr

/-- Whether a text is a value of a kind. -/
def ValueKind.accepts : ValueKind → String → Bool
  | path, value => !value.isEmpty
  | text, _ => true
  | stepBound, value => (CommandLine.stepBound value).isOk
  | count, value => (count? value).isSome
  | amount, value => (amount? value).isSome

end Chomsky.CommandLine
