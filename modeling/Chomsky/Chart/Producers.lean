import Chomsky.Grammar.Basic

/-!
# Producers

A grammar leads from a name to its productions; its producers lead back, from a production to the
names that have it. Pairs are looked up by their left name and then by their right name, and tokens
at once. A production that no name has is not listed, so the producers of two grammars are equal
exactly when the grammars have the same rules.
-/

namespace Chomsky

/-- Sets of names, each under a text. -/
abbrev NameTable := Std.ExtTreeMap String NameSet

/-- Adds a name to the set under a text. -/
def NameTable.add (table : NameTable) (text name : String) : NameTable :=
  table.alter text fun old => some ((old.getD ∅).insert name)

/-- For each production that is used, the names that have it. -/
structure Producers where
  /-- For the left names of pairs, what stands under the right names. -/
  pairs : Std.ExtTreeMap String NameTable
  tokens : NameTable
  deriving DecidableEq

namespace Producers

def empty : Producers := ⟨∅, ∅⟩

/-- The names that have a production, if there are any. -/
def of? (producers : Producers) : Production → Option NameSet
  | .binary left right => do (← producers.pairs[left]?)[right]?
  | .unary token => producers.tokens[token]?

def of (producers : Producers) (p : Production) : NameSet :=
  (producers.of? p).getD ∅

/-- Adds one rule. -/
def record (producers : Producers) (rule : Rule) : Producers :=
  match rule.right with
  | .binary left right =>
    { producers with
      pairs := producers.pairs.alter left fun old =>
        some (NameTable.add (old.getD ∅) right rule.left) }
  | .unary token => { producers with tokens := producers.tokens.add token rule.left }

def ofRules (rules : List Rule) : Producers :=
  rules.foldl record empty

def ofGrammar (g : Grammar) : Producers :=
  ofRules g.rules

/-! ## What is recorded -/

@[simp] theorem getElem?_add (table : NameTable) (text other name : String) :
    (table.add text name)[other]? =
      if text = other then some ((table[other]?.getD ∅).insert name) else table[other]? := by
  by_cases h : text = other
  · subst h
    simp [NameTable.add]
  · simp [NameTable.add, h, Std.ExtTreeMap.getElem?_alter]

@[simp] theorem of?_empty (p : Production) : empty.of? p = none := by
  cases p <;> simp [empty, of?]

/-- A rule adds its name to the producers of its right-hand side and changes no others. -/
@[simp] theorem of?_record (producers : Producers) (rule : Rule) (p : Production) :
    (producers.record rule).of? p =
      if rule.right = p then some ((producers.of p).insert rule.left) else producers.of? p := by
  obtain ⟨name, production⟩ := rule
  cases production with
  | binary left right =>
    cases p with
    | binary left' right' =>
      by_cases hleft : left = left'
      · subst hleft
        cases hinner : producers.pairs[left]? <;>
          simp [record, of, of?, hinner]
      · simp [record, of?, hleft, Std.ExtTreeMap.getElem?_alter]
    | unary token => rfl
  | unary token =>
    cases p with
    | binary left right => rfl
    | unary token' => simp [record, of, of?]

@[simp] theorem mem_of_record {producers : Producers} {rule : Rule} {p : Production} {name : String} :
    name ∈ (producers.record rule).of p ↔ ⟨name, p⟩ = rule ∨ name ∈ producers.of p := by
  obtain ⟨left, right⟩ := rule
  rw [of, of?_record]
  by_cases h : right = p
  · subst h
    simp [@eq_comm _ name left]
  · simp [h, Ne.symm h, of]

@[simp] theorem mem_of_ofRules {rules : List Rule} {p : Production} {name : String} :
    name ∈ (ofRules rules).of p ↔ ⟨name, p⟩ ∈ rules := by
  suffices h : ∀ producers : Producers,
      name ∈ (rules.foldl record producers).of p ↔ ⟨name, p⟩ ∈ rules ∨ name ∈ producers.of p by
    simpa [ofRules, of] using h empty
  induction rules with
  | nil => simp
  | cons rule rules ih =>
    intro producers
    rw [List.foldl_cons, ih, mem_of_record, List.mem_cons]
    apply Iff.intro
    · intro h
      obtain h | h | h := h
      · exact .inl (.inr h)
      · exact .inl (.inl h)
      · exact .inr h
    · intro h
      obtain (h | h) | h := h
      · exact .inr (.inl h)
      · exact .inl h
      · exact .inr (.inr h)

/-- The producers of a production are the names whose rules have it. -/
@[simp] theorem mem_of_ofGrammar {g : Grammar} {p : Production} {name : String} :
    name ∈ (ofGrammar g).of p ↔ ⟨name, p⟩ ∈ g.rules :=
  mem_of_ofRules

end Producers

end Chomsky
