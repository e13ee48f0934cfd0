import Chomsky.Proofs.Grammar.Rules
import Chomsky.Proofs.Homomorphism

/-!
# More rules derive more

A merged grammar has the rules of both grammars, so each of them maps into it by the identity. What
a chart shows for one of them it also shows for the merged grammar, cell by cell.

A search is another matter. It stops at a name that is undefined, and the other grammar may define
that name: then the sentence that keeps the name is lost. Where the first grammar defines every name
it uses, no search stops at a name, and nothing is lost.
-/

namespace Chomsky

theorem mapsInto_merge (a b : Grammar) : Grammar.MapsInto id a (a.merge b) := by
  intro rule hrule
  rw [Rule.rename_id]
  exact Grammar.mem_rules_merge.mpr (Or.inl hrule)

/-- **Merging loses nothing.** Every cell of a chart keeps its names, hence every accepted sentence is
accepted; and from a grammar that defines every name it uses, and the start symbol, whatever is found
within a bound is found within that bound. -/
theorem cells_merge_and_sentences_merge (a b : Grammar) (start : String) :
    (∀ w span cell, ((Recogniser.ofGrammar a start).chart w).cell? span = some cell →
      ∃ larger, ((Recogniser.ofGrammar (a.merge b) start).chart w).cell? span = some larger ∧
        ∀ name ∈ cell, name ∈ larger) ∧
    (∀ w, (Recogniser.ofGrammar a start).accepts w = true →
      (Recogniser.ofGrammar (a.merge b) start).accepts w = true) ∧
    (a.undefinedNames = ∅ → a.defines start = true → ∀ bound e, ∀ w ∈ a.sentences start bound e,
      w ∈ (a.merge b).sentences start bound e) := by
  have hmap : Grammar.MapsInto id a (a.merge b) := mapsInto_merge a b
  refine ⟨?_, ?_, ?_⟩
  · intro w span cell hcell
    obtain ⟨hpos, hbound⟩ := Chart.bounds_of_cell? hcell
    obtain ⟨larger, hlarger⟩ := Chart.exists_cell (g := a.merge b) hpos hbound
    refine ⟨larger, hlarger, fun name hname => ?_⟩
    have hbefore : name ∈ (Chart.ofTokens (.ofGrammar a) w).members span :=
      Chart.mem_members.mpr ⟨cell, hcell, hname⟩
    have hafter : name ∈ (Chart.ofTokens (.ofGrammar (a.merge b)) w).members span :=
      Chart.mem_members_of_mapsInto (f := id) hmap hbefore
    obtain ⟨other, hother, hmem⟩ := Chart.mem_members.mp hafter
    have hsame : other = larger := Option.some.inj (hother.symm.trans hlarger)
    rw [← hsame]
    exact hmem
  · intro w h
    exact Recogniser.accepts_of_mapsInto (f := id) hmap h
  · intro hdefined hstart bound e w h
    exact Grammar.mem_sentences_of_mapsInto (f := id) hmap hdefined hstart h

/-- Two rules more, one of them with an undefined name, and nothing of `balanced` is lost. -/
theorem cells_merge_balanced :
    let b : Grammar := .ofRules [⟨"A", .unary "b"⟩, ⟨"S", .binary "B" "D"⟩]
    (∃ larger, ((Recogniser.ofGrammar (balanced.merge b) "S").chart ["a", "a", "b", "b"]).cell?
      ⟨1, 3⟩ = some larger ∧ "C" ∈ larger) ∧
    (Recogniser.ofGrammar balanced "S").accepts ["a", "a", "b", "b"] = true ∧
    (Recogniser.ofGrammar (balanced.merge b) "S").accepts ["a", "a", "b", "b"] = true ∧
    balanced.undefinedNames = ∅ ∧ balanced.defines "S" = true ∧
    ["a", "a", "b", "b"] ∈ (balanced.merge b).sentences "S" 4 .parallel := by
  intro b
  have haccepts : (Recogniser.ofGrammar balanced "S").accepts ["a", "a", "b", "b"] = true := by
    decide
  have hdefined : balanced.undefinedNames = ∅ := by decide +kernel
  have hstart : balanced.defines "S" = true := by decide
  obtain ⟨hcells, hverdict, hfound⟩ := cells_merge_and_sentences_merge balanced b "S"
  obtain ⟨larger, hlarger, hkept⟩ := hcells ["a", "a", "b", "b"] ⟨1, 3⟩ {"C"} (by decide +kernel)
  refine ⟨⟨larger, hlarger, hkept "C" (by decide)⟩, haccepts, hverdict _ haccepts, hdefined, hstart,
    hfound hdefined hstart 4 .parallel _ ?_⟩
  decide +kernel

/-- A name that the first grammar leaves undefined is a sentence of its own, until the other grammar
defines it. -/
example :
    let a : Grammar := .ofRules [⟨"S", .binary "A" "A"⟩]
    let b : Grammar := .ofRules [⟨"A", .unary "a"⟩]
    ["A", "A"] ∈ a.sentences "S" 5 .leftmost ∧
      ["A", "A"] ∉ (a.merge b).sentences "S" 5 .leftmost := by
  decide +kernel

end Chomsky
