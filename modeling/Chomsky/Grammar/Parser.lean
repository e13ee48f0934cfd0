import Chomsky.Diagnostics
import Chomsky.Rule.Parser
import Chomsky.Text.Lines

/-!
# Reading a grammar

A grammar text holds one rule a line. Reading stops at the first line that is no rule and reports
it by its number; otherwise the grammar is the union of the rules, so neither their order nor
their repetition matters.
-/

namespace Chomsky

/-- The classifier that a convention gives for the lines of a text. -/
def Convention.classifier : Convention → List (List Char) → Classifier
  | .uppercase, _ => .uppercase
  | .declared, lines => .declared (.ofList (lines.filterMap Rule.declaredName?))

namespace Grammar

/-- The rules on the lines, the first of which has the given number. -/
def rulesOfLines (c : Classifier) (number : Nat) :
    List (List Char) → Except (Located Rule.Fault) (List Rule)
  | [] => .ok []
  | line :: rest =>
    match Rule.ofLine c line with
    | .error cause => .error ⟨.ofLine number, cause⟩
    | .ok rule => (rulesOfLines c (number + 1) rest).map (rule :: ·)

/-- The grammar that a sequence of lines holds. -/
def ofLines (convention : Convention) (lines : List (List Char)) :
    Except (Located Rule.Fault) Grammar :=
  (rulesOfLines (convention.classifier lines) 1 lines).map ofRules

def parse (convention : Convention) (text : String) : Except (Located Rule.Fault) Grammar :=
  ofLines convention (Text.lines text.toList)

/-- What is told when a text was read: a warning for each name that is used and not defined, and
then the number of rules. -/
def notices (g : Grammar) : List Notice :=
  (g.undefinedNames.toList.map fun name =>
    ⟨.warn, "Nonterminal `" ++ name ++ "` is used but has no productions"⟩) ++
  [⟨.debug, "Parsed grammar with " ++ toString g.size ++ " productions"⟩]

end Grammar

end Chomsky
