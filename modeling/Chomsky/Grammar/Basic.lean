import Std.Data.ExtTreeMap
import Chomsky.Symbol

/-!
# Grammars in Chomsky normal form

A grammar gives each name it defines a finite set of productions. Nothing is demanded of the names
and tokens: a name may be empty, may be spelled like a token, may be used without being defined,
and may be defined with no production at all. A defined name without productions is still defined:
it must be expanded and cannot be, whereas an undefined name is not expanded at all.

Everything is read through one view, `Grammar.productions?`.
-/

namespace Chomsky

/-- One rule: a name and one of its productions. -/
structure Rule where
  left : String
  right : Production
  deriving DecidableEq, Repr

/-- The defined names with their productions. -/
structure Grammar where
  alternatives : Std.ExtTreeMap String Productions
  deriving DecidableEq

namespace Grammar

def empty : Grammar := ⟨∅⟩

instance : Inhabited Grammar := ⟨empty⟩

/-! ## Reading -/

/-- The productions of a name, when it is defined. -/
def productions? (g : Grammar) (name : String) : Option Productions :=
  g.alternatives[name]?

def defines (g : Grammar) (name : String) : Bool :=
  (g.productions? name).isSome

/-- The productions that may replace a symbol: none for a terminal, and none for an undefined
name. -/
def options? (g : Grammar) : Symbol → Option Productions
  | .terminal _ => none
  | .nonterminal name => g.productions? name

def expandable (g : Grammar) (s : Symbol) : Bool :=
  (g.options? s).isSome

/-- The defined names, in ascending order. -/
def names (g : Grammar) : List String :=
  g.alternatives.keys

/-- The defined names with their productions, in ascending order of the names. -/
def entries (g : Grammar) : List (String × Productions) :=
  g.alternatives.toList

/-- All rules, in ascending order of the names and then of the productions. -/
def rules (g : Grammar) : List Rule :=
  g.entries.flatMap fun (name, productions) => productions.toList.map (Rule.mk name)

def size (g : Grammar) : Nat :=
  g.rules.length

def isEmpty (g : Grammar) : Bool :=
  g.alternatives.isEmpty

/-- The tokens that the rules write. -/
def terminals (g : Grammar) : NameSet :=
  .ofList (g.rules.flatMap fun rule => rule.right.tokens)

/-- The names that the rules use and the grammar does not define. -/
def undefinedNames (g : Grammar) : NameSet :=
  .ofList ((g.rules.flatMap fun rule => rule.right.names).filter fun name => !g.defines name)

/-! ## Building -/

/-- Adds productions to a name, which is defined from then on. -/
def define (g : Grammar) (name : String) (productions : Productions) : Grammar :=
  ⟨g.alternatives.alter name fun old => some (old.getD ∅ ∪ productions)⟩

/-- Adds entries one after the other. -/
def defineAll (g : Grammar) (entries : List (String × Productions)) : Grammar :=
  entries.foldl (fun g entry => g.define entry.1 entry.2) g

/-- The grammar with the given entries. Entries of one name are united. -/
def ofEntries (entries : List (String × Productions)) : Grammar :=
  empty.defineAll entries

def ofRules (rules : List Rule) : Grammar :=
  ofEntries (rules.map fun rule => (rule.left, {rule.right}))

/-- The grammar that defines what either grammar defines and unites the productions of the names
that both define. -/
def merge (a b : Grammar) : Grammar :=
  a.defineAll b.entries

end Grammar

/-! ## Written form -/

namespace Rule

/-- What stands between the sides of a rule. -/
def arrow : String := " -> "

def render (rule : Rule) : String :=
  rule.left ++ arrow ++ rule.right.render

end Rule

/-- One rule a line, each line ended. Defined names without productions leave no trace. -/
def Grammar.render (g : Grammar) : String :=
  String.join (g.rules.map fun rule => rule.render ++ "\n")

end Chomsky
