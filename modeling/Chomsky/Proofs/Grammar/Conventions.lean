import Chomsky.Proofs.Grammar.RoundTrip

/-!
# One text under two conventions

The conventions tell names from tokens by different evidence: by the first character of a word, or
by the left sides of the whole text. What a text holds under one of them is what it holds under the
other exactly when the grammar that comes out is well-formed for the other as well
(**`parse_eq_ok_iff_of_parse`**), so nothing needs to be said of words and lines any more.

For a grammar that was read this comes to little. Read by capitals, it lacks only that a name is used
and not defined (`wellFormed_declared_iff`): two such capitals written together are a token under the
declared convention, and no fault. Read by declarations, it lacks only the capitals
(`wellFormed_uppercase_iff`).
-/

namespace Chomsky.Grammar

variable {g : Grammar} {m m' : Convention} {text : String}

/-! ## From one convention to the other -/

/-- **A grammar that was read is read under the conventions that it is well-formed for.** -/
theorem parse_eq_ok_iff_of_parse (h : parse m text = .ok g) :
    parse m' text = .ok g ↔ g.WellFormed m' := by
  refine ⟨wellFormed_of_parse, fun hwell => ?_⟩
  have hreadable : g.Readable m' := (wellFormed_iff.mp hwell).1
  obtain ⟨rules, hrules, hlines⟩ := parse_eq_ok_iff.mp h
  refine parse_eq_ok_iff.mpr ⟨rules, hrules, ?_⟩
  rw [← hlines]
  apply List.map_congr_left
  intro line hline
  -- the line holds one of the rules, and the other classifier takes its words for the same
  have hread : Rule.ofLine (m.classifierOf g) line ∈ rules.map (Except.ok (ε := Rule.Fault)) := by
    rw [← hlines]
    exact List.mem_map_of_mem hline
  obtain ⟨rule, hrule, hok⟩ := List.mem_map.mp hread
  have hmem : rule ∈ g.rules := by
    rw [← hrules]
    exact mem_rules_ofRules.mpr hrule
  rw [← hok]
  exact Rule.ofLine_of_readableBy hok.symm (hreadable rule hmem)

/-! ## What the other convention demands -/

/-- A token is no name and no two names written together, since it does not start like one. -/
theorem wellFormed_declared_iff (h : g.WellFormed .uppercase) :
    g.WellFormed .declared ↔ g.undefinedNames = ∅ := by
  have hupper : g.WellFormedUppercase := h
  rw [undefinedNames_eq_empty_iff]
  refine ⟨fun hdeclared => hdeclared.pairs, fun hdefined => ?_⟩
  refine {
    names := fun name hname => (hupper.names name hname).1
    pairs := hdefined
    tokens := fun rule hrule token htoken => ?_
    inhabited := hupper.inhabited }
  obtain ⟨hword, hlower⟩ := hupper.tokens rule hrule token htoken
  refine ⟨hword, ?_, ?_⟩
  · rw [Bool.eq_false_iff]
    intro hname
    exact hlower (hupper.names token hname).2
  · intro l r hl _ _ _ heq
    obtain ⟨first, rest, hcons, hfirst⟩ := (hupper.names l hl).2
    refine hlower ⟨first, rest ++ r.toList, ?_, hfirst⟩
    rw [heq, String.toList_append, hcons]
    rfl

theorem wellFormed_uppercase_iff (h : g.WellFormed .declared) :
    g.WellFormed .uppercase ↔
      (∀ name ∈ g.names, Text.StartsUppercase name.toList) ∧
        ∀ token ∈ g.terminals, ¬Text.StartsUppercase token.toList := by
  have hdeclared : g.WellFormedDeclared := h
  constructor
  · intro hupper
    refine ⟨fun name hname => (hupper.names name (mem_names.mp hname)).2, fun token htoken => ?_⟩
    obtain ⟨rule, hrule, hwritten⟩ := mem_terminals.mp htoken
    exact (hupper.tokens rule hrule token hwritten).2
  · rintro ⟨hcapital, hsmall⟩
    have hname : ∀ name, g.defines name = true →
        Text.IsWord name.toList ∧ Text.StartsUppercase name.toList :=
      fun name hdefined => ⟨hdeclared.names name hdefined, hcapital name (mem_names.mpr hdefined)⟩
    refine {
      names := hname
      pairs := fun rule hrule name hmem => hname name (hdeclared.pairs rule hrule name hmem)
      tokens := fun rule hrule token htoken => ?_
      inhabited := hdeclared.inhabited }
    have hword : Text.IsWord token.toList := (hdeclared.tokens rule hrule token htoken).1
    exact ⟨hword, hsmall token (mem_terminals.mpr ⟨rule, hrule, htoken⟩)⟩

/-- **The conventions agree exactly where they should.** A grammar that a text holds by capitals is
what it holds by declarations exactly when no name is left undefined. A grammar that it holds by
declarations is what it holds by capitals exactly when all its names and none of its tokens start
with one. -/
theorem parse_declared_iff_and_parse_uppercase_iff (text : String) (g : Grammar) :
    (parse .uppercase text = .ok g → (parse .declared text = .ok g ↔ g.undefinedNames = ∅)) ∧
    (parse .declared text = .ok g →
      (parse .uppercase text = .ok g ↔
        (∀ name ∈ g.names, Text.StartsUppercase name.toList) ∧
          ∀ token ∈ g.terminals, ¬Text.StartsUppercase token.toList)) := by
  constructor
  · intro h
    rw [parse_eq_ok_iff_of_parse h]
    exact wellFormed_declared_iff (wellFormed_of_parse h)
  · intro h
    rw [parse_eq_ok_iff_of_parse h]
    exact wellFormed_uppercase_iff (wellFormed_of_parse h)

/-- The rules of `balanced` are read alike. In the other text `AB` is a pair by capitals, with `B`
left undefined, and a token by declarations, which starts with a capital. -/
theorem parse_balanced_alike_and_parse_pair_apart :
    (parse .uppercase "S -> AB\nS -> AC\nC -> SB\nA -> a\nB -> b" = .ok balanced ∧
      parse .declared "S -> AB\nS -> AC\nC -> SB\nA -> a\nB -> b" = .ok balanced) ∧
    (parse .uppercase "S -> AB\nA -> a" = .ok (ofRules [⟨"S", .binary "A" "B"⟩, ⟨"A", .unary "a"⟩]) ∧
      parse .declared "S -> AB\nA -> a" ≠
        .ok (ofRules [⟨"S", .binary "A" "B"⟩, ⟨"A", .unary "a"⟩])) ∧
    (parse .declared "S -> AB\nA -> a" = .ok (ofRules [⟨"S", .unary "AB"⟩, ⟨"A", .unary "a"⟩]) ∧
      parse .uppercase "S -> AB\nA -> a" ≠
        .ok (ofRules [⟨"S", .unary "AB"⟩, ⟨"A", .unary "a"⟩])) := by
  refine ⟨⟨rfl, ?_⟩, ⟨rfl, ?_⟩, ⟨rfl, ?_⟩⟩
  · have hdefined : balanced.undefinedNames = ∅ := by decide +kernel
    exact ((parse_declared_iff_and_parse_uppercase_iff _ _).1 rfl).mpr hdefined
  · intro h
    have hdefined := ((parse_declared_iff_and_parse_uppercase_iff _ _).1 rfl).mp h
    exact absurd hdefined (by decide +kernel)
  · intro h
    have hsmall := (((parse_declared_iff_and_parse_uppercase_iff _ _).2 rfl).mp h).2
    exact hsmall "AB" (by decide +kernel) ⟨'A', ['B'], rfl, by decide⟩

end Chomsky.Grammar
