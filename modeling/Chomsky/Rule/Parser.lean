import Chomsky.Grammar.Basic
import Chomsky.Rule.Fault
import Chomsky.Text.Blank
import Chomsky.Text.Uppercase

/-!
# Reading a rule line

A rule line holds two sides around one arrow. The arrow is the four characters ` -> `, looked for
from the left before anything is trimmed, so the blanks beside it are part of it and two arrows
cannot share a blank. The left side is one nonterminal. The right side is one terminal, two
nonterminals apart, or two nonterminals of one character each written together.

Which words are nonterminals is for a `Classifier` to say.
-/

namespace Chomsky

/-! ## Telling nonterminals from terminals -/

/-- How the words of a text are told apart. -/
inductive Convention where
  /-- Nonterminals start with an uppercase character. -/
  | uppercase
  /-- Nonterminals are the words that stand on a left side. -/
  | declared
  deriving DecidableEq, Repr, Inhabited

/-- Decides which words are nonterminals. -/
inductive Classifier where
  | uppercase
  | declared (names : NameSet)

namespace Classifier

def isNonterminal : Classifier → List Char → Bool
  | uppercase, [] => false
  | uppercase, first :: _ => Text.isUppercase first
  | declared names, word => String.ofList word ∈ names

/-- The two one-character nonterminals that a word of two characters consists of. -/
def pair? (c : Classifier) : List Char → Option (List Char × List Char)
  | [l, r] => if c.isNonterminal [l] && c.isNonterminal [r] then some ([l], [r]) else none
  | _ => none

/-- Whether a word that is a nonterminal is reported as a unit rule. A declared word is one name;
a word that only starts with an uppercase character is one name when nothing follows. -/
def isName : Classifier → List Char → Bool
  | uppercase, word => word.length == 1
  | declared _, _ => true

end Classifier

namespace Rule

/-! ## The two sides -/

/-- The parts of a text between its arrows. -/
def arrowParts : List Char → List (List Char)
  | [] => [[]]
  | ' ' :: '-' :: '>' :: ' ' :: rest => [] :: arrowParts rest
  | c :: rest => (arrowParts rest).modifyHead (c :: ·)

def sides (line : List Char) : Except Fault (List Char × List Char) :=
  if line.all Text.isBlank then .error .blankLine
  else match arrowParts line with
    | [left, right] => .ok (Text.trim left, Text.trim right)
    | _ :: _ :: _ => .error .secondArrow
    | _ => .error .noArrow

def leftSide (c : Classifier) (left : List Char) : Except Fault String :=
  if left.isEmpty then .error .noLeftSide
  else if left.any Text.isBlank || !c.isNonterminal left then
    .error (.notNonterminal (String.ofList left))
  else .ok (String.ofList left)

/-- The production of a right side that is one word. Two nonterminals written together come
before a terminal of two characters. -/
def oneWord (c : Classifier) (word : List Char) : Except Fault Production :=
  match c.pair? word with
  | some (l, r) => .ok (.binary (String.ofList l) (String.ofList r))
  | none =>
    if !c.isNonterminal word then .ok (.unary (String.ofList word))
    else if c.isName word then .error (.unitRule (String.ofList word))
    else .error (.notPair (String.ofList word))

/-- The production of a right side that is two words. The first terminal is the one reported. -/
def twoWords (c : Classifier) (l r : List Char) : Except Fault Production :=
  if !c.isNonterminal l then .error (.terminalInPair (String.ofList l))
  else if !c.isNonterminal r then .error (.terminalInPair (String.ofList r))
  else .ok (.binary (String.ofList l) (String.ofList r))

def rightSide (c : Classifier) (right : List Char) : Except Fault Production :=
  match Text.words right with
  | [] => .error .noRightSide
  | [word] => oneWord c word
  | [l, r] => twoWords c l r
  | words => .error (.tooManyWords words.length)

/-- The rule on a line. The left side is looked at first. -/
def ofLine (c : Classifier) (line : List Char) : Except Fault Rule := do
  let (left, right) ← sides line
  let name ← leftSide c left
  let production ← rightSide c right
  return ⟨name, production⟩

/-- The name that a line declares: its left side, when the line has two sides and the left one is
not empty. Nothing else is demanded of the line. -/
def declaredName? (line : List Char) : Option String :=
  match sides line with
  | .ok ([], _) => none
  | .ok (left, _) => some (String.ofList left)
  | .error _ => none

end Rule

end Chomsky
