import Chomsky.Chart.Basic
import Chomsky.Text.Blank

/-!
# Recognisers

A recogniser decides which sentences a start symbol derives. It keeps the producers of the grammar
it was made from and not the grammar, so it does not follow later changes. The empty sentence is
never accepted: no production is empty.
-/

namespace Chomsky

/-- A start symbol over the producers of a grammar. -/
structure Recogniser where
  producers : Producers
  start : String
  deriving DecidableEq

namespace Recogniser

/-- The start symbol where none is named. -/
def defaultStart : String := "S"

/-- The recogniser of what a name derives in a grammar. -/
def ofGrammar (g : Grammar) (start : String) : Recogniser :=
  ⟨.ofGrammar g, start⟩

def chart (r : Recogniser) (tokens : Sentence) : Chart :=
  .ofTokens r.producers tokens

/-- Whether the start symbol derives the sentence. -/
def accepts (r : Recogniser) (tokens : Sentence) : Bool :=
  match (r.chart tokens).spanning? with
  | none => false
  | some names => r.start ∈ names

/-- The tokens of a text: its words. -/
def tokens (text : String) : Sentence :=
  (Text.words text.toList).map String.ofList

/-- Whether the start symbol derives the words of a text. -/
def acceptsText (r : Recogniser) (text : String) : Bool :=
  r.accepts (tokens text)

/-- What is told while a sentence is decided. -/
def notices (r : Recogniser) (tokens : Sentence) : List Notice :=
  (r.chart tokens).notices

end Recogniser

end Chomsky
