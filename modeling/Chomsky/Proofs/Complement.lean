import Chomsky.Proofs.Agreement
import Chomsky.Samples

/-!
# Sentences outside the language are rejected

The complement of what a search found serves as negative data for a recogniser, and it is negative
only if the search was granted enough steps: a sentence that takes one step more than the bound is
missing from the language and would be labelled as underivable. The steps that the longest sentence
of the complement needs are enough for all of it.

Nothing is demanded of the grammar for that. In a grammar with undefined names the search also finds
sentences that keep such a name, which are never accepted; without undefined names the complement is
exactly what is rejected.
-/

namespace Chomsky

variable {g : Grammar} {start : String} {e : Expansion} {bound steps : Nat} {w : Sentence}

theorem Expansion.stepsFor_le_iff :
    e.stepsFor bound ≤ steps ↔
      e = .leftmost ∧ 2 * bound ≤ steps + 1 ∨ e = .parallel ∧ bound ≤ steps := by
  cases e with
  | leftmost =>
    show 2 * bound - 1 ≤ steps ↔ _
    simp
  | parallel =>
    show bound ≤ steps ↔ _
    simp

theorem accepts_eq_false_of_mem_complement (hsteps : e.stepsFor bound ≤ steps)
    (h : w ∈ complement (g.sentences start steps e) g.terminals bound) :
    (Recogniser.ofGrammar g start).accepts w = false := by
  obtain ⟨⟨-, hlength⟩, -, hnew⟩ := mem_complement.mp h
  rw [Bool.eq_false_iff]
  intro haccepts
  have henough : e.stepsFor w.length ≤ steps := Nat.le_trans (e.stepsFor_mono hlength) hsteps
  exact hnew (Grammar.mem_sentences_of_accepts henough haccepts)

theorem not_mem_sentences_of_accepts_eq_false (hdefined : g.undefinedNames = ∅)
    (hstart : g.defines start = true) (h : (Recogniser.ofGrammar g start).accepts w = false) :
    w ∉ g.sentences start steps e := by
  intro hmem
  have haccepts := Grammar.accepts_of_mem_sentences hdefined hstart hmem
  rw [h] at haccepts
  exact Bool.false_ne_true haccepts

/-- **The complement is negative data.** If a search is granted the steps that a sentence of `bound`
tokens needs, no sentence of the complement up to that length is accepted. If moreover the grammar
defines every name it uses, and the start symbol, the complement holds every sentence over its
tokens, up to that length, that is not accepted. -/
theorem complement_rejected_and_mem_iff (g : Grammar) (start : String) (bound : Nat)
    (e : Expansion) (steps : Nat)
    (hsteps : e = .leftmost ∧ 2 * bound ≤ steps + 1 ∨ e = .parallel ∧ bound ≤ steps) :
    (∀ w ∈ complement (g.sentences start steps e) g.terminals bound,
      (Recogniser.ofGrammar g start).accepts w = false) ∧
    (g.undefinedNames = ∅ → g.defines start = true → ∀ w,
      w ∈ complement (g.sentences start steps e) g.terminals bound ↔
        (1 ≤ w.length ∧ w.length ≤ bound) ∧ (∀ token ∈ w, token ∈ g.terminals) ∧
          (Recogniser.ofGrammar g start).accepts w = false) := by
  have henough := Expansion.stepsFor_le_iff.mpr hsteps
  refine ⟨fun w => accepts_eq_false_of_mem_complement henough, fun hdefined hstart w => ?_⟩
  apply Iff.intro
  · intro h
    obtain ⟨hlength, htokens, -⟩ := mem_complement.mp h
    exact ⟨hlength, htokens, accepts_eq_false_of_mem_complement henough h⟩
  · intro h
    obtain ⟨hlength, htokens, hrejected⟩ := h
    have hnew : w ∉ g.sentences start steps e :=
      not_mem_sentences_of_accepts_eq_false hdefined hstart hrejected
    exact mem_complement.mpr ⟨hlength, htokens, hnew⟩

/-- Seven leftmost steps are just enough for sentences of four tokens. -/
theorem complement_balanced_rejected :
    2 * 4 ≤ 7 + 1 ∧ balanced.undefinedNames = ∅ ∧ balanced.defines "S" = true ∧
      ["a", "b", "a", "b"] ∈ complement (balanced.sentences "S" 7 .leftmost) balanced.terminals 4 ∧
      (Recogniser.ofGrammar balanced "S").accepts ["a", "b", "a", "b"] = false := by
  have hdefined : balanced.undefinedNames = ∅ := by decide +kernel
  have hstart : balanced.defines "S" = true := by decide
  obtain ⟨hrejected, hexact⟩ :=
    complement_rejected_and_mem_iff balanced "S" 4 .leftmost 7 (Or.inl ⟨rfl, by decide⟩)
  have hmem := (hexact hdefined hstart ["a", "b", "a", "b"]).mpr
    ⟨by decide, by decide +kernel, by decide +kernel⟩
  exact ⟨by decide, hdefined, hstart, hmem, hrejected _ hmem⟩

end Chomsky
