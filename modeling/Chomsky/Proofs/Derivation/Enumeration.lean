import Chomsky.Derivation.Search
import Chomsky.Proofs.Derivation.Levels

/-!
# What a search has found

The search keeps a frontier and the sentences harvested so far, and harvests a form one step after
it was completed. **`Search.After`** is the invariant that says where it stands: after `n` steps the
frontier holds the forms that exactly `n` steps reach, and the harvest holds the sentences of the
complete forms that fewer than `n` steps reach. One step keeps it (`After.step`), a run of steps
keeps it (`After.advance`), and reading the result closes the gap of one (`After.mem_language`).

* **`mem_sentences_iff_run`**: the sentences within a bound are those of the complete forms that at
  most that many steps reach, for either kind of step.
* **`mem_sentences_iff_tree`**: they are those at the leaves of the trees that cost at most that
  many steps. What a tree costs is all that the two kinds of step differ in.
* **`mem_sentences_leftmost_iff_rewrites`**: expanding only the leftmost name loses no sentence and
  adds none, at any bound.
-/

namespace Chomsky

namespace Search

/-- Where a search from a name stands after `n` steps. -/
structure After (g : Grammar) (e : Expansion) (name : String) (n : Nat) (search : Search) :
    Prop where
  frontier : ∀ form, form ∈ search.frontier ↔ Run (g.StepsTo e) n [.nonterminal name] form
  found : ∀ w, w ∈ search.found ↔ ∃ m < n, ∃ form,
    Run (g.StepsTo e) m [.nonterminal name] form ∧ g.complete form = true ∧ form.sentence = w

variable {g : Grammar} {e : Expansion} {name : String} {n : Nat} {search : Search}

theorem After.start : After g e name 0 (start name) where
  frontier form := by
    have hmem : form ∈ (Search.start name).frontier ↔ [.nonterminal name] = form := by
      simp [Search.start]
    rw [hmem]
    apply Iff.intro
    · intro heq
      rw [← heq]
      exact .refl _
    · intro h
      cases h
      rfl
  found w := by
    apply Iff.intro
    · intro h
      exact absurd h Std.ExtTreeSet.not_mem_empty
    · intro h
      obtain ⟨m, hm, -⟩ := h
      exact absurd hm (Nat.not_lt_zero m)

/-- What is known after `n` steps: the harvest so far, and one more from the frontier. -/
theorem After.mem_language (h : After g e name n search) {w : Sentence} :
    w ∈ search.language g ↔ ∃ m ≤ n, ∃ form,
      Run (g.StepsTo e) m [.nonterminal name] form ∧ g.complete form = true ∧
        form.sentence = w := by
  rw [Search.mem_language, mem_harvest, h.found]
  apply Iff.intro
  · intro hmem
    obtain ⟨m, hm, form, hform⟩ | ⟨form, hmem, hform⟩ := hmem
    · exact ⟨m, Nat.le_of_lt hm, form, hform⟩
    · exact ⟨n, Nat.le_refl n, form, (h.frontier form).mp hmem, hform⟩
  · intro hmem
    obtain ⟨m, hm, form, hrun, hform⟩ := hmem
    -- shorter runs were harvested on the way, runs of full length are still in the frontier
    rcases Nat.lt_or_eq_of_le hm with hlt | rfl
    · exact Or.inl ⟨m, hlt, form, hrun, hform⟩
    · exact Or.inr ⟨form, (h.frontier form).mpr hrun, hform⟩

theorem After.step (h : After g e name n search) : After g e name (n + 1) (search.step g e) where
  frontier form := by
    rw [mem_frontier_step, Run.succ_iff]
    apply Iff.intro
    · intro hmem
      obtain ⟨last, hlast, hstep⟩ := hmem
      exact ⟨last, (h.frontier last).mp hlast, hstep⟩
    · intro hmem
      obtain ⟨last, hrun, hstep⟩ := hmem
      exact ⟨last, (h.frontier last).mpr hrun, hstep⟩
  found w := by
    show w ∈ search.language g ↔ _
    rw [h.mem_language]
    simp only [Nat.lt_succ_iff]

theorem After.advance (h : After g e name n search) (k : Nat) :
    After g e name (n + k) (search.advance g e k) := by
  induction k generalizing n search with
  | zero => exact h
  | succ k ih =>
    -- the first of the steps is taken off, so the invariant moves forward with the state
    rw [advance_succ, show n + (k + 1) = (n + 1) + k from by omega]
    exact ih h.step

end Search

/-- The steps that it takes to derive the leaves of a tree from its root: a leftmost step uses one
production, a parallel step all those of one level. -/
def Expansion.cost : Expansion → Tree → Nat
  | .leftmost, tree => tree.size
  | .parallel, tree => tree.height

theorem run_iff_tree {g : Grammar} {e : Expansion} {n : Nat} {s : Symbol} {final : Form} :
    (Run (g.StepsTo e) n [s] final ∧ g.complete final = true) ↔
      ∃ tree : Tree, tree.ValidFor g ∧ tree.root = s ∧ tree.fringe = final ∧ e.cost tree = n := by
  cases e with
  | leftmost => exact run_leftmost_iff_tree
  | parallel => exact run_parallel_iff_tree

namespace Grammar

variable {g : Grammar} {e : Expansion} {name : String} {bound : Nat} {w : Sentence}

/-- **What is enumerated.** The sentences of the complete forms that at most `bound` steps reach. -/
theorem mem_sentences_iff_run :
    w ∈ g.sentences name bound e ↔ ∃ n ≤ bound, ∃ form,
      Run (g.StepsTo e) n [.nonterminal name] form ∧ g.complete form = true ∧
        form.sentence = w := by
  have hafter : Search.After g e name (0 + bound) ((Search.start name).advance g e bound) :=
    Search.After.start.advance bound
  rw [Nat.zero_add] at hafter
  exact hafter.mem_language

/-- **What is enumerated, as trees.** The sentences at the leaves of the trees that cost at most
`bound` steps. -/
theorem mem_sentences_iff_tree :
    w ∈ g.sentences name bound e ↔ ∃ tree : Tree, tree.ValidFor g ∧
      tree.root = .nonterminal name ∧ tree.fringe.sentence = w ∧ e.cost tree ≤ bound := by
  rw [mem_sentences_iff_run]
  apply Iff.intro
  · intro h
    obtain ⟨n, hn, form, hrun, hform, hw⟩ := h
    obtain ⟨tree, hvalid, hroot, rfl, rfl⟩ := run_iff_tree.mp ⟨hrun, hform⟩
    exact ⟨tree, hvalid, hroot, hw, hn⟩
  · intro h
    obtain ⟨tree, hvalid, hroot, hw, hcost⟩ := h
    obtain ⟨hrun, hform⟩ := run_iff_tree.mpr ⟨tree, hvalid, hroot, rfl, rfl⟩
    exact ⟨e.cost tree, hcost, tree.fringe, hrun, hform, hw⟩

theorem mem_sentences_leftmost_iff_tree :
    w ∈ g.sentences name bound .leftmost ↔ ∃ tree : Tree, tree.ValidFor g ∧
      tree.root = .nonterminal name ∧ tree.fringe.sentence = w ∧ tree.size ≤ bound :=
  mem_sentences_iff_tree

theorem mem_sentences_parallel_iff_tree :
    w ∈ g.sentences name bound .parallel ↔ ∃ tree : Tree, tree.ValidFor g ∧
      tree.root = .nonterminal name ∧ tree.fringe.sentence = w ∧ tree.height ≤ bound :=
  mem_sentences_iff_tree

theorem complete_iff_forall {form : Form} :
    g.complete form = true ↔ ∀ s ∈ form, g.expandable s = false := by
  simp [complete]

/-- **Leftmost steps lose nothing and add nothing.** A sentence is enumerated within a bound exactly
when at most that many rewrites, each at any expandable name of the form, lead to a form that spells
it and that no rewrite leads on from. -/
theorem mem_sentences_leftmost_iff_rewrites (g : Grammar) (name : String) (bound : Nat)
    (w : Sentence) :
    w ∈ g.sentences name bound .leftmost ↔
      ∃ form : Form, (∀ s ∈ form, g.expandable s = false) ∧ form.sentence = w ∧
        ∃ n ≤ bound, Run g.Rewrites n [.nonterminal name] form := by
  rw [mem_sentences_leftmost_iff_tree]
  apply Iff.intro
  · intro h
    obtain ⟨tree, hvalid, hroot, hw, hsize⟩ := h
    obtain ⟨hrun, hform⟩ := run_rewrites_iff_tree.mpr ⟨tree, hvalid, hroot, rfl, rfl⟩
    exact ⟨tree.fringe, complete_iff_forall.mp hform, hw, tree.size, hsize, hrun⟩
  · intro h
    obtain ⟨form, hstop, hw, n, hn, hrun⟩ := h
    obtain ⟨tree, hvalid, hroot, rfl, rfl⟩ :=
      run_rewrites_iff_tree.mp ⟨hrun, complete_iff_forall.mpr hstop⟩
    exact ⟨tree, hvalid, hroot, hw, hn⟩

end Grammar

end Chomsky
