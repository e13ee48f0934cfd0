import Chomsky.Proofs.Chart.Membership
import Chomsky.Proofs.Derivation.Enumeration

/-!
# The search and the chart agree

Sentences are searched for from the start symbol, and recognised from the tokens. Both find the
leaves of derivation trees (`Grammar.mem_sentences_leftmost_iff_tree`,
`Recogniser.accepts_iff_tree`), with one difference: the search also keeps names that the grammar
leaves undefined, and the chart has no cell for them. In a grammar that defines every name it uses,
the difference is gone, and the number of tokens fixes the number of steps that the search needs.

A tree has a fixed number of leaves to spend its productions and its levels on, so a search that is
granted enough steps for the length of a sentence finds it if any search does
(`Grammar.mem_sentences_iff_tree_of_stepsFor_le`).
-/

namespace Chomsky

/-! ## Enough steps for a length -/

/-- The steps within which every sentence of `n` tokens that is derived at all is found. -/
def Expansion.stepsFor : Expansion → Nat → Nat
  | .leftmost, n => 2 * n - 1
  | .parallel, n => n

theorem Expansion.cost_le_stepsFor (e : Expansion) (tree : Tree) :
    e.cost tree ≤ e.stepsFor tree.fringe.length := by
  cases e with
  | leftmost =>
    have hsize := tree.size_add_one_le
    show tree.size ≤ 2 * tree.fringe.length - 1
    omega
  | parallel => exact tree.height_le

theorem Expansion.stepsFor_mono (e : Expansion) {m n : Nat} (h : m ≤ n) :
    e.stepsFor m ≤ e.stepsFor n := by
  cases e with
  | leftmost =>
    show 2 * m - 1 ≤ 2 * n - 1
    omega
  | parallel => exact h

namespace Grammar

variable {g : Grammar} {start : String} {e : Expansion} {bound : Nat} {w : Sentence}

/-- **No bound matters beyond the length.** -/
theorem mem_sentences_iff_tree_of_stepsFor_le (hsteps : e.stepsFor w.length ≤ bound) :
    w ∈ g.sentences start bound e ↔ ∃ tree : Tree, tree.ValidFor g ∧
      tree.root = .nonterminal start ∧ tree.fringe.sentence = w := by
  rw [mem_sentences_iff_tree]
  apply Iff.intro
  · intro h
    obtain ⟨tree, hvalid, hroot, hw, -⟩ := h
    exact ⟨tree, hvalid, hroot, hw⟩
  · intro h
    obtain ⟨tree, hvalid, hroot, rfl⟩ := h
    have hcost := e.cost_le_stepsFor tree
    have hlength : tree.fringe.sentence.length = tree.fringe.length := List.length_map _
    rw [hlength] at hsteps
    exact ⟨tree, hvalid, hroot, rfl, Nat.le_trans hcost hsteps⟩

/-- What the chart accepts is found within the steps that its length needs, whatever names are left
undefined. -/
theorem mem_sentences_of_accepts (hsteps : e.stepsFor w.length ≤ bound)
    (h : (Recogniser.ofGrammar g start).accepts w = true) : w ∈ g.sentences start bound e := by
  obtain ⟨tree, hvalid, hroot, hfringe⟩ := Recogniser.accepts_iff_tree.mp h
  have hw : tree.fringe.sentence = w := by rw [hfringe, Tree.sentence_map_terminal]
  exact (mem_sentences_iff_tree_of_stepsFor_le hsteps).mpr ⟨tree, hvalid, hroot, hw⟩

/-- In a grammar without undefined names the chart accepts what is found, within any bound. -/
theorem accepts_of_mem_sentences (hdefined : g.undefinedNames = ∅)
    (hstart : g.defines start = true) (h : w ∈ g.sentences start bound e) :
    (Recogniser.ofGrammar g start).accepts w = true := by
  obtain ⟨tree, hvalid, hroot, rfl, -⟩ := mem_sentences_iff_tree.mp h
  obtain ⟨u, hu⟩ := Tree.exists_fringe_eq_terminals hdefined hvalid hroot hstart
  rw [hu, Tree.sentence_map_terminal]
  exact Recogniser.accepts_iff_tree.mpr ⟨tree, hvalid, hroot, hu⟩

end Grammar

/-! ## The exact bound -/

/-- **The search finds what the chart accepts, and when.** In a grammar without undefined names, a
sentence of `n` tokens that is accepted is found at the bound `2 * n - 1`, at every larger one, and at
no smaller one; a sentence that is not accepted is never found. -/
theorem mem_sentences_leftmost_iff_accepts {g : Grammar} {start : String}
    (hdefined : g.undefinedNames = ∅) (hstart : g.defines start = true) (bound : Nat)
    (w : Sentence) :
    w ∈ g.sentences start bound .leftmost ↔
      (Recogniser.ofGrammar g start).accepts w = true ∧ 2 * w.length - 1 ≤ bound := by
  rw [Grammar.mem_sentences_leftmost_iff_tree, Recogniser.accepts_iff_tree]
  apply Iff.intro
  · intro h
    obtain ⟨tree, hvalid, hroot, hw, hsize⟩ := h
    -- the leaves are tokens only, so they are the tokens of the sentence
    obtain ⟨u, hu⟩ := Tree.exists_fringe_eq_terminals hdefined hvalid hroot hstart
    rw [hu, Tree.sentence_map_terminal] at hw
    subst hw
    have hcount := Tree.size_add_one_of_fringe hvalid hroot hu
    exact ⟨⟨tree, hvalid, hroot, hu⟩, by omega⟩
  · intro h
    obtain ⟨⟨tree, hvalid, hroot, hfringe⟩, hbound⟩ := h
    have hcount := Tree.size_add_one_of_fringe hvalid hroot hfringe
    refine ⟨tree, hvalid, hroot, ?_, by omega⟩
    rw [hfringe, Tree.sentence_map_terminal]

/-- The sentence `a a b b` is found at the bound 7 and not at the bound 6. -/
theorem mem_sentences_balanced :
    balanced.undefinedNames = ∅ ∧ balanced.defines "S" = true ∧
      ["a", "a", "b", "b"] ∈ balanced.sentences "S" 7 .leftmost ∧
      ["a", "a", "b", "b"] ∉ balanced.sentences "S" 6 .leftmost := by
  have hdefined : balanced.undefinedNames = ∅ := by decide +kernel
  have hstart : balanced.defines "S" = true := by decide
  have haccepts : (Recogniser.ofGrammar balanced "S").accepts ["a", "a", "b", "b"] = true := by
    decide
  refine ⟨hdefined, hstart, ?_, ?_⟩
  · exact (mem_sentences_leftmost_iff_accepts hdefined hstart 7 _).mpr ⟨haccepts, by decide⟩
  · intro h
    exact absurd ((mem_sentences_leftmost_iff_accepts hdefined hstart 6 _).mp h).2 (by decide)

end Chomsky
