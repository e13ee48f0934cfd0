import Chomsky.Diagnostics

/-!
# Faults of a rule line

Why a line of text is not a rule. Each cause carries the text that its wording shows.
-/

namespace Chomsky

/-- Why a line is not a rule. -/
inductive Rule.Fault where
  | blankLine
  | noArrow
  | secondArrow
  | noLeftSide
  /-- What stands before the arrow is not one nonterminal. -/
  | notNonterminal (left : String)
  | noRightSide
  /-- Of two words after the arrow, this one is a terminal. -/
  | terminalInPair (word : String)
  /-- The only word after the arrow is neither a terminal nor two nonterminals. -/
  | notPair (word : String)
  | tooManyWords (count : Nat)
  | unitRule (word : String)
  deriving DecidableEq, Repr

namespace Rule.Fault

def message : Rule.Fault → String
  | blankLine => "Blank line where a rule was expected"
  | noArrow => "Expected `->` between the sides of a rule"
  | secondArrow => "Unexpected second `->` encountered"
  | noLeftSide => "Missing nonterminal before `->`"
  | notNonterminal left => "Tried to define `" ++ left ++ "`, which is not a nonterminal"
  | noRightSide => "Missing right-hand side"
  | terminalInPair word => "Terminal `" ++ word ++ "` in a pair of nonterminals"
  | notPair word => "`" ++ word ++ "` is not a pair of nonterminals"
  | tooManyWords count => "Expected one or two symbols, found " ++ toString count
  | unitRule word => "Unit production to `" ++ word ++ "` is not in Chomsky normal form"

instance : Worded Rule.Fault := ⟨message⟩

end Rule.Fault

end Chomsky
