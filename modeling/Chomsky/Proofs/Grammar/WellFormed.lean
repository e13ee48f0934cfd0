import Chomsky.Grammar.Parser
import Chomsky.Proofs.Grammar.Rules
import Chomsky.Proofs.Rule.Line

/-!
# Well-formed grammars

Which grammars can be written down and read back depends on how a reader tells names from tokens.
Under each convention the *well-formed* grammars are described by their names and tokens alone,
without mention of a reader (`WellFormedUppercase`, `WellFormedDeclared`).

The bridge to reading is **`wellFormed_iff`**: a grammar is well-formed exactly when no name is empty
and every rule is readable by the classifier that the convention gives for the grammar itself.
-/

namespace Chomsky

/-- The text is not empty, and its first character is uppercase. -/
def Text.StartsUppercase (text : List Char) : Prop :=
  ∃ first rest, text = first :: rest ∧ isUppercase first = true

namespace Grammar

/-- Well-formed where names start with an uppercase character. -/
structure WellFormedUppercase (g : Grammar) : Prop where
  names : ∀ name, g.defines name = true →
    Text.IsWord name.toList ∧ Text.StartsUppercase name.toList
  pairs : ∀ rule ∈ g.rules, ∀ name ∈ rule.right.names,
    Text.IsWord name.toList ∧ Text.StartsUppercase name.toList
  tokens : ∀ rule ∈ g.rules, ∀ token ∈ rule.right.tokens,
    Text.IsWord token.toList ∧ ¬ Text.StartsUppercase token.toList
  inhabited : ∀ name, g.productions? name ≠ some ∅

/-- Well-formed where names are the words on the left sides. -/
structure WellFormedDeclared (g : Grammar) : Prop where
  names : ∀ name, g.defines name = true → Text.IsWord name.toList
  pairs : ∀ rule ∈ g.rules, ∀ name ∈ rule.right.names, g.defines name = true
  tokens : ∀ rule ∈ g.rules, ∀ token ∈ rule.right.tokens,
    Text.IsWord token.toList ∧ g.defines token = false ∧
      ∀ l r : String, g.defines l = true → g.defines r = true → l.length = 1 → r.length = 1 →
        token ≠ l ++ r
  inhabited : ∀ name, g.productions? name ≠ some ∅

def WellFormed (g : Grammar) : Convention → Prop
  | .uppercase => g.WellFormedUppercase
  | .declared => g.WellFormedDeclared

end Grammar

/-- The classifier that a convention gives for a text that holds the grammar. -/
def Convention.classifierOf (g : Grammar) : Convention → Classifier
  | .uppercase => .uppercase
  | .declared => .declared (.ofList g.names)

namespace Classifier

variable {g : Grammar}

/-- What is not read as two names written together, said of the names instead of the characters. -/
theorem pair?_eq_none_iff {c : Classifier} {token : String} :
    c.pair? token.toList = none ↔ ∀ l r : String, c.isNonterminal l.toList = true →
      c.isNonterminal r.toList = true → l.length = 1 → r.length = 1 → token ≠ l ++ r := by
  apply Iff.intro
  · intro h l r hl hr hlone hrone htoken
    obtain ⟨a, ha⟩ := length_eq_one_iff.mp hlone
    obtain ⟨b, hb⟩ := length_eq_one_iff.mp hrone
    have hpair : c.pair? token.toList = some ([a], [b]) := by
      refine pair?_eq_some_iff.mpr ⟨a, b, ?_, rfl, rfl, ha ▸ hl, hb ▸ hr⟩
      rw [htoken, String.toList_append, ha, hb]
      rfl
    rw [h] at hpair
    exact absurd hpair (by nofun)
  · intro h
    cases hpair : c.pair? token.toList with
    | none => rfl
    | some parts =>
      obtain ⟨a, b, hab, -, -, ha, hb⟩ := pair?_eq_some_iff.mp hpair
      refine absurd ?_ (h (.ofList [a]) (.ofList [b]) (by simpa using ha) (by simpa using hb)
        (by simp) (by simp))
      rw [← String.toList_inj, hab]
      simp

/-! ## Names and tokens by the first character -/

theorem isNonterminal_uppercase_iff {text : List Char} :
    uppercase.isNonterminal text = true ↔ Text.StartsUppercase text := by
  cases text with
  | nil => exact ⟨nofun, fun ⟨_, _, h, _⟩ => absurd h (by nofun)⟩
  | cons first rest =>
    apply Iff.intro
    · intro h
      exact ⟨first, rest, rfl, h⟩
    · intro h
      obtain ⟨_, _, heq, hfirst⟩ := h
      obtain ⟨rfl, rfl⟩ := List.cons.inj heq
      exact hfirst

theorem takesForName_uppercase_iff {name : String} :
    uppercase.TakesForName name ↔ Text.IsWord name.toList ∧ Text.StartsUppercase name.toList := by
  rw [TakesForName, isNonterminal_uppercase_iff]

/-- Two names written together start like the first of them, so they are no token anyway. -/
theorem takesForToken_uppercase_iff {token : String} :
    uppercase.TakesForToken token ↔
      Text.IsWord token.toList ∧ ¬ Text.StartsUppercase token.toList := by
  rw [TakesForToken, ← isNonterminal_uppercase_iff, Bool.not_eq_true, pair?_eq_none_iff]
  apply Iff.intro
  · intro h
    exact ⟨h.1, h.2.1⟩
  · intro h
    refine ⟨h.1, h.2, fun l r hl _ hlone _ htoken => ?_⟩
    obtain ⟨a, ha⟩ := length_eq_one_iff.mp hlone
    have hstart : uppercase.isNonterminal token.toList = true := by
      rw [ha] at hl
      rw [htoken, String.toList_append, ha]
      exact hl
    rw [h.2] at hstart
    exact absurd hstart (by decide)

/-! ## Names and tokens by declaration -/

theorem isNonterminal_declared_iff {name : String} :
    (Convention.declared.classifierOf g).isNonterminal name.toList = true ↔
      g.defines name = true := by
  simp [Convention.classifierOf, isNonterminal, Std.ExtTreeSet.mem_ofList]

theorem takesForName_declared_iff {name : String} :
    (Convention.declared.classifierOf g).TakesForName name ↔
      Text.IsWord name.toList ∧ g.defines name = true := by
  rw [TakesForName, isNonterminal_declared_iff]

theorem takesForToken_declared_iff {token : String} :
    (Convention.declared.classifierOf g).TakesForToken token ↔
      Text.IsWord token.toList ∧ g.defines token = false ∧
        ∀ l r : String, g.defines l = true → g.defines r = true → l.length = 1 → r.length = 1 →
          token ≠ l ++ r := by
  rw [TakesForToken, ← Bool.not_eq_true, isNonterminal_declared_iff, Bool.not_eq_true,
    pair?_eq_none_iff]
  simp only [isNonterminal_declared_iff]

end Classifier

/-! ## The bridge to reading -/

namespace Grammar

variable {g : Grammar}

/-- Every name and token of the rules is readable by the classifier of the grammar. -/
def Readable (g : Grammar) (m : Convention) : Prop :=
  ∀ rule ∈ g.rules, rule.ReadableBy (m.classifierOf g)

theorem wellFormedUppercase_iff :
    g.WellFormedUppercase ↔ g.Readable .uppercase ∧ ∀ name, g.productions? name ≠ some ∅ := by
  apply Iff.intro
  · intro h
    refine ⟨fun rule hrule => ?_, h.inhabited⟩
    exact {
      left := Classifier.takesForName_uppercase_iff.mpr (h.names _ (defines_of_mem_rules hrule))
      names := fun name hname =>
        Classifier.takesForName_uppercase_iff.mpr (h.pairs rule hrule name hname)
      tokens := fun token htoken =>
        Classifier.takesForToken_uppercase_iff.mpr (h.tokens rule hrule token htoken) }
  · intro h
    obtain ⟨hreadable, hinhabited⟩ := h
    refine {
      names := ?_
      pairs := fun rule hrule name hname =>
        Classifier.takesForName_uppercase_iff.mp ((hreadable rule hrule).names name hname)
      tokens := fun rule hrule token htoken =>
        Classifier.takesForToken_uppercase_iff.mp ((hreadable rule hrule).tokens token htoken)
      inhabited := hinhabited }
    -- a defined name is the left side of one of its rules
    intro name hname
    obtain ⟨rule, hrule, rfl⟩ := exists_mem_rules_of_defines (hinhabited name) hname
    exact Classifier.takesForName_uppercase_iff.mp (hreadable rule hrule).left

theorem wellFormedDeclared_iff :
    g.WellFormedDeclared ↔ g.Readable .declared ∧ ∀ name, g.productions? name ≠ some ∅ := by
  apply Iff.intro
  · intro h
    have hname : ∀ name, g.defines name = true →
        (Convention.declared.classifierOf g).TakesForName name :=
      fun name hdefined => Classifier.takesForName_declared_iff.mpr ⟨h.names name hdefined, hdefined⟩
    refine ⟨fun rule hrule => ?_, h.inhabited⟩
    exact {
      left := hname rule.left (defines_of_mem_rules hrule)
      names := fun name hmem => hname name (h.pairs rule hrule name hmem)
      tokens := fun token htoken =>
        Classifier.takesForToken_declared_iff.mpr (h.tokens rule hrule token htoken) }
  · intro h
    obtain ⟨hreadable, hinhabited⟩ := h
    refine {
      names := ?_
      pairs := fun rule hrule name hname =>
        (Classifier.takesForName_declared_iff.mp ((hreadable rule hrule).names name hname)).2
      tokens := fun rule hrule token htoken =>
        Classifier.takesForToken_declared_iff.mp ((hreadable rule hrule).tokens token htoken)
      inhabited := hinhabited }
    intro name hname
    obtain ⟨rule, hrule, rfl⟩ := exists_mem_rules_of_defines (hinhabited name) hname
    exact (Classifier.takesForName_declared_iff.mp (hreadable rule hrule).left).1

/-- **Well-formed is readable, and without empty names.** -/
theorem wellFormed_iff {m : Convention} :
    g.WellFormed m ↔ g.Readable m ∧ ∀ name, g.productions? name ≠ some ∅ := by
  cases m with
  | uppercase => exact wellFormedUppercase_iff
  | declared => exact wellFormedDeclared_iff

/-- Under either convention a token is a word, so blanks around it are no part of it. -/
theorem isWord_of_mem_terminals {m : Convention} (h : g.WellFormed m) {token : String}
    (htoken : token ∈ g.terminals) : Text.IsWord token.toList := by
  have hreadable : g.Readable m := (wellFormed_iff.mp h).1
  obtain ⟨rule, hrule, hwritten⟩ := mem_terminals.mp htoken
  have htaken := (hreadable rule hrule).tokens token hwritten
  exact htaken.1

end Grammar

end Chomsky
