import Mathlib.Tactic.TFAE
import Chomsky.Proofs.Agreement
import Chomsky.Proofs.Grammar.Rules

/-!
# Undefined names are tokens

A search keeps an undefined name as it is spelled, and takes no step for it. A chart knows no such
name: a name stands in a cell only if it has a rule. The two meet when every undefined name is given
the one rule that spells it like itself (`Grammar.closed`). Then the trees of the closed grammar that
derive tokens only are the trees of the grammar, with each undefined name at a leaf turned into a
node that writes it:

* **`exists_closed_tree`** closes a tree at its leaves, and **`exists_tree_of_closed`** opens it
  again. Nothing else about the trees changes, so neither an undefined name that is spelled like a
  token nor a defined name without productions needs a case of its own.
* **`tfae_mem_sentences_accepts_closed`**: what some search finds within some bound is what the
  leftmost and the parallel search find within the bound that the length sets, and what the chart of
  the closed grammar accepts.
-/

namespace Chomsky

namespace Grammar

/-- The names that a derivation from the start name can stop at: those that the grammar leaves
undefined, and the start name if it is one of them. -/
def openNames (g : Grammar) (start : String) : List String :=
  g.undefinedNames.toList ++ if g.defines start then [] else [start]

/-- The grammar in which each of these names is spelled like itself. -/
def verbatim (g : Grammar) (start : String) : Grammar :=
  .ofRules ((g.openNames start).map fun name => ⟨name, .unary name⟩)

def closed (g : Grammar) (start : String) : Grammar :=
  g.merge (g.verbatim start)

variable {g : Grammar} {start name : String}

theorem mem_openNames :
    name ∈ g.openNames start ↔
      name ∈ g.undefinedNames ∨ name = start ∧ g.defines start = false := by
  cases h : g.defines start <;> simp [openNames, h]

theorem productions?_of_mem_openNames (h : name ∈ g.openNames start) :
    g.productions? name = none := by
  have hname : g.defines name = false := by
    rcases mem_openNames.mp h with hundefined | ⟨rfl, hstart⟩
    · exact (mem_undefinedNames.mp hundefined).2
    · exact hstart
  rw [← Option.isNone_iff_eq_none, ← Option.not_isSome, Bool.not_eq_true']
  exact hname

theorem mem_rules_closed {p : Production} :
    ⟨name, p⟩ ∈ (g.closed start).rules ↔
      ⟨name, p⟩ ∈ g.rules ∨ name ∈ g.openNames start ∧ p = .unary name := by
  rw [closed, mem_rules_merge, verbatim, mem_rules_ofRules]
  apply or_congr_right
  apply Iff.intro
  · intro h
    obtain ⟨other, hother, heq⟩ := List.mem_map.mp h
    obtain ⟨rfl, rfl⟩ := Rule.mk.inj heq
    exact ⟨hother, rfl⟩
  · intro h
    obtain ⟨hopen, rfl⟩ := h
    exact List.mem_map.mpr ⟨name, hopen, rfl⟩

/-- A name that a derivation meets is defined, or it is one of those that it can stop at. -/
def Met (g : Grammar) (start name : String) : Prop :=
  g.defines name = true ∨ name ∈ g.openNames start

theorem met_start (g : Grammar) (start : String) : g.Met start start := by
  cases h : g.defines start with
  | true => exact Or.inl h
  | false => exact Or.inr (mem_openNames.mpr (Or.inr ⟨rfl, h⟩))

theorem met_of_mem_names {rule : Rule} (hrule : rule ∈ g.rules) (hname : name ∈ rule.right.names) :
    g.Met start name := by
  cases h : g.defines name with
  | true => exact Or.inl h
  | false =>
    have hundefined : name ∈ g.undefinedNames := mem_undefinedNames.mpr ⟨⟨rule, hrule, hname⟩, h⟩
    exact Or.inr (mem_openNames.mpr (Or.inl hundefined))

end Grammar

variable {g : Grammar} {start name : String} {tree : Tree} {w : Sentence}

/-! ## Closing and opening trees -/

/-- **Closing a tree.** The closed tree derives, as tokens, what the tree spells. -/
theorem exists_closed_tree (h : tree.ValidFor g) (hroot : tree.root = .nonterminal name)
    (hname : g.Met start name) :
    ∃ closed : Tree, closed.ValidFor (g.closed start) ∧ closed.root = .nonterminal name ∧
      closed.fringe = tree.fringe.sentence.map Symbol.terminal := by
  induction h generalizing name with
  | @leaf s hstop =>
    obtain rfl : s = .nonterminal name := hroot
    -- a name that stands at a leaf is not defined, so the closed grammar spells it
    have hundefined : ¬g.defines name = true := by
      intro hdefines
      obtain ⟨ps, hps⟩ := Grammar.defines_iff.mp hdefines
      exact absurd (hps.symm.trans hstop) (Option.some_ne_none ps)
    have hopen : name ∈ g.openNames start := hname.resolve_left hundefined
    have hrule := Grammar.mem_rules_closed.mpr (Or.inr ⟨hopen, rfl⟩)
    exact ⟨.unary name name, .unary hrule, rfl, rfl⟩
  | @unary other token hrule =>
    have hkept : ⟨other, .unary token⟩ ∈ (g.closed start).rules :=
      Grammar.mem_rules_closed.mpr (Or.inl hrule)
    exact ⟨.unary other token, .unary hkept, hroot, rfl⟩
  | @binary other b c left right hrule hb hc hleft hright ihl ihr =>
    obtain ⟨front, hfront, hfrontRoot, hfrontFringe⟩ :=
      ihl hb (Grammar.met_of_mem_names hrule (by simp))
    obtain ⟨back, hback, hbackRoot, hbackFringe⟩ :=
      ihr hc (Grammar.met_of_mem_names hrule (by simp))
    have hkept : ⟨other, .binary b c⟩ ∈ (g.closed start).rules :=
      Grammar.mem_rules_closed.mpr (Or.inl hrule)
    refine ⟨.binary other front back, .binary hkept hfrontRoot hbackRoot hfront hback, hroot, ?_⟩
    rw [Tree.fringe, hfrontFringe, hbackFringe, ← List.map_append]
    exact congrArg (List.map Symbol.terminal) List.map_append.symm

/-- **Opening a closed tree.** A node that the closing rules made becomes a leaf again. -/
theorem exists_tree_of_closed (h : tree.ValidFor (g.closed start))
    (hroot : tree.root = .nonterminal name) (hw : tree.fringe = w.map Symbol.terminal) :
    ∃ opened : Tree, opened.ValidFor g ∧ opened.root = .nonterminal name ∧
      opened.fringe.sentence = w := by
  induction h generalizing name w with
  | @leaf s hstop =>
    rw [show s = .nonterminal name from hroot] at hw
    exact absurd hw (Tree.singleton_nonterminal_ne_terminals name w)
  | @unary other token hrule =>
    obtain rfl : [token] = w := by
      rw [← Tree.sentence_map_terminal w, ← hw]
      rfl
    rcases Grammar.mem_rules_closed.mp hrule with hrule | ⟨hopen, heq⟩
    · exact ⟨.unary other token, .unary hrule, hroot, rfl⟩
    · obtain rfl := Production.unary.inj heq
      obtain rfl := Symbol.nonterminal.inj hroot
      exact ⟨.leaf (.nonterminal token), .leaf (Grammar.productions?_of_mem_openNames hopen), rfl,
        rfl⟩
  | @binary other b c left right hrule hb hc hleft hright ihl ihr =>
    obtain ⟨u, v, rfl, hu, hv⟩ := Tree.exists_of_append_eq_terminals hw
    obtain ⟨front, hfront, hfrontRoot, rfl⟩ := ihl hb hu
    obtain ⟨back, hback, hbackRoot, rfl⟩ := ihr hc hv
    rcases Grammar.mem_rules_closed.mp hrule with hrule | ⟨-, heq⟩
    · exact ⟨.binary other front back, .binary hrule hfrontRoot hbackRoot hfront hback, hroot,
        List.map_append⟩
    · exact absurd heq (by nofun)

theorem accepts_closed_iff_tree :
    (Recogniser.ofGrammar (g.closed start) start).accepts w = true ↔
      ∃ tree : Tree, tree.ValidFor g ∧ tree.root = .nonterminal start ∧
        tree.fringe.sentence = w := by
  rw [Recogniser.accepts_iff_tree]
  apply Iff.intro
  · intro h
    obtain ⟨tree, hvalid, hroot, hfringe⟩ := h
    exact exists_tree_of_closed hvalid hroot hfringe
  · intro h
    obtain ⟨tree, hvalid, hroot, rfl⟩ := h
    exact exists_closed_tree hvalid hroot (g.met_start start)

/-! ## What is found, and what the closed chart accepts -/

/-- **Undefined names act as tokens spelled like themselves.** For any grammar, start name and
sentence: some search finds the sentence; the leftmost search finds it within one step less than
twice its length; the parallel search finds it within as many steps as its length; the chart of the
closed grammar accepts it. -/
theorem tfae_mem_sentences_accepts_closed (g : Grammar) (start : String) (w : Sentence) :
    List.TFAE [
      ∃ bound e, w ∈ g.sentences start bound e,
      w ≠ [] ∧ w ∈ g.sentences start (2 * w.length - 1) .leftmost,
      w ≠ [] ∧ w ∈ g.sentences start w.length .parallel,
      (Recogniser.ofGrammar (g.closed start) start).accepts w = true] := by
  have hne : (∃ tree : Tree, tree.ValidFor g ∧ tree.root = .nonterminal start ∧
      tree.fringe.sentence = w) → w ≠ [] := by
    intro h hnil
    obtain ⟨tree, -, -, hw⟩ := h
    exact tree.fringe_ne_nil (List.map_eq_nil_iff.mp (hw.trans hnil))
  tfae_have 1 → 4 := by
    intro h
    obtain ⟨bound, e, hmem⟩ := h
    obtain ⟨tree, hvalid, hroot, hw, -⟩ := Grammar.mem_sentences_iff_tree.mp hmem
    exact accepts_closed_iff_tree.mpr ⟨tree, hvalid, hroot, hw⟩
  tfae_have 4 → 2 := by
    intro h
    have htree := accepts_closed_iff_tree.mp h
    exact ⟨hne htree, (Grammar.mem_sentences_iff_tree_of_stepsFor_le (Nat.le_refl _)).mpr htree⟩
  tfae_have 4 → 3 := by
    intro h
    have htree := accepts_closed_iff_tree.mp h
    exact ⟨hne htree, (Grammar.mem_sentences_iff_tree_of_stepsFor_le (Nat.le_refl _)).mpr htree⟩
  tfae_have 2 → 1 := fun h => ⟨_, _, h.2⟩
  tfae_have 3 → 1 := fun h => ⟨_, _, h.2⟩
  tfae_finish

end Chomsky
