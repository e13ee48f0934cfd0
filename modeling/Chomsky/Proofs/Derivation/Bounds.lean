import Mathlib.Algebra.Group.Nat.Defs
import Chomsky.Proofs.Derivation.Enumeration

/-!
# One bound in terms of the other

A leftmost step uses one production, a parallel step all those of one level. A tree has a production
at least on each of its levels, and at most as many as fit into them, so a bound on the steps of one
kind is a bound on the steps of the other kind:

* **`mem_sentences_parallel_of_leftmost`**: as many parallel steps suffice as leftmost ones.
* **`mem_sentences_leftmost_of_parallel`**: for `k` parallel steps, `2 ^ k - 1` leftmost ones suffice.
* **`mem_sentences_parallel_of_two_mul_sub_one`**: where no name is left undefined, half as many
  parallel steps suffice as leftmost ones. An undefined name is a leaf that took no step, and a tree
  with such leaves may be a long comb.

The number of tokens is bounded along the way: each leftmost step adds one token at most.
-/

namespace Chomsky

/-- A level holds at most twice as many productions as the one above it. -/
theorem Tree.size_lt_two_pow_height (tree : Tree) : tree.size < 2 ^ tree.height := by
  induction tree with
  | leaf s => simp
  | unary name token => simp
  | binary name left right ihl ihr =>
    -- either subtree has as much room as the higher of the two
    have hleft : 2 ^ left.height ≤ 2 ^ max left.height right.height :=
      Nat.pow_le_pow_right (by decide) (Nat.le_max_left _ _)
    have hright : 2 ^ right.height ≤ 2 ^ max left.height right.height :=
      Nat.pow_le_pow_right (by decide) (Nat.le_max_right _ _)
    simp only [size, height, Nat.pow_succ]
    omega

namespace Grammar

variable {g : Grammar} {start : String} {bound : Nat} {w : Sentence}

theorem mem_sentences_parallel_of_leftmost (h : w ∈ g.sentences start bound .leftmost) :
    w ∈ g.sentences start bound .parallel := by
  obtain ⟨tree, hvalid, hroot, hw, hsize⟩ := mem_sentences_leftmost_iff_tree.mp h
  have hheight := tree.height_le_size
  exact mem_sentences_parallel_iff_tree.mpr ⟨tree, hvalid, hroot, hw, by omega⟩

theorem mem_sentences_leftmost_of_parallel (h : w ∈ g.sentences start bound .parallel) :
    w ∈ g.sentences start (2 ^ bound - 1) .leftmost := by
  obtain ⟨tree, hvalid, hroot, hw, hheight⟩ := mem_sentences_parallel_iff_tree.mp h
  have hsize := tree.size_lt_two_pow_height
  have hroom : 2 ^ tree.height ≤ 2 ^ bound := Nat.pow_le_pow_right (by decide) hheight
  exact mem_sentences_leftmost_iff_tree.mpr ⟨tree, hvalid, hroot, hw, by omega⟩

/-- A tree over tokens has one production less than twice their number, and is no higher than they
are many. -/
theorem mem_sentences_parallel_of_two_mul_sub_one (hdefined : g.undefinedNames = ∅)
    (hstart : g.defines start = true) (h : w ∈ g.sentences start (2 * bound - 1) .leftmost) :
    w ∈ g.sentences start bound .parallel := by
  obtain ⟨tree, hvalid, hroot, hw, hsize⟩ := mem_sentences_leftmost_iff_tree.mp h
  obtain ⟨u, hu⟩ := Tree.exists_fringe_eq_terminals hdefined hvalid hroot hstart
  have hcount := Tree.size_add_one_of_fringe hvalid hroot hu
  have hheight : tree.height ≤ u.length := by
    have hleaves := tree.height_le
    rwa [hu, List.length_map] at hleaves
  exact mem_sentences_parallel_iff_tree.mpr ⟨tree, hvalid, hroot, hw, by omega⟩

/-! ## The number of tokens -/

theorem length_pos_of_mem_sentences {e : Expansion} (h : w ∈ g.sentences start bound e) :
    1 ≤ w.length := by
  obtain ⟨tree, -, -, rfl, -⟩ := mem_sentences_iff_tree.mp h
  rw [Form.sentence, List.length_map]
  exact tree.length_fringe_pos

theorem length_le_of_mem_sentences_leftmost (h : w ∈ g.sentences start bound .leftmost) :
    w.length ≤ bound + 1 := by
  obtain ⟨tree, -, -, rfl, hsize⟩ := mem_sentences_leftmost_iff_tree.mp h
  have hlength := tree.length_fringe_le
  rw [Form.sentence, List.length_map]
  omega

theorem length_le_of_mem_sentences_parallel (h : w ∈ g.sentences start bound .parallel) :
    w.length ≤ 2 ^ bound := by
  have hlength := length_le_of_mem_sentences_leftmost (mem_sentences_leftmost_of_parallel h)
  have hroom : 0 < 2 ^ bound := Nat.two_pow_pos bound
  omega

/-! ## The two expansions -/

/-- **The two expansions bound each other.** What `k` leftmost steps find, `k` parallel steps find, and
what these find, `2 ^ k - 1` leftmost steps find; the sentences have one token at least, and at most
`k + 1` or `2 ^ k` of them. In a grammar that defines every name it uses, and the start symbol, `k`
parallel steps find all that `2 * k - 1` leftmost steps find. -/
theorem sentences_leftmost_parallel_bounds (g : Grammar) (start : String) (bound : Nat) :
    (∀ w ∈ g.sentences start bound .leftmost, w ∈ g.sentences start bound .parallel) ∧
    (∀ w ∈ g.sentences start bound .parallel, w ∈ g.sentences start (2 ^ bound - 1) .leftmost) ∧
    (∀ w ∈ g.sentences start bound .leftmost, 1 ≤ w.length ∧ w.length ≤ bound + 1) ∧
    (∀ w ∈ g.sentences start bound .parallel, 1 ≤ w.length ∧ w.length ≤ 2 ^ bound) ∧
    (g.undefinedNames = ∅ → g.defines start = true →
      ∀ w ∈ g.sentences start (2 * bound - 1) .leftmost, w ∈ g.sentences start bound .parallel) := by
  refine ⟨?_, ?_, ?_, ?_, ?_⟩
  · intro w h
    exact mem_sentences_parallel_of_leftmost h
  · intro w h
    exact mem_sentences_leftmost_of_parallel h
  · intro w h
    exact ⟨length_pos_of_mem_sentences h, length_le_of_mem_sentences_leftmost h⟩
  · intro w h
    exact ⟨length_pos_of_mem_sentences h, length_le_of_mem_sentences_parallel h⟩
  · intro hdefined hstart w h
    exact mem_sentences_parallel_of_two_mul_sub_one hdefined hstart h

/-- The sentence `a a b b` takes 7 leftmost steps or 4 parallel ones. -/
theorem sentences_balanced_bounds :
    balanced.undefinedNames = ∅ ∧ balanced.defines "S" = true ∧
      ["a", "a", "b", "b"] ∈ balanced.sentences "S" 7 .leftmost ∧
      ["a", "a", "b", "b"] ∈ balanced.sentences "S" 7 .parallel ∧
      ["a", "a", "b", "b"] ∈ balanced.sentences "S" 4 .parallel ∧
      ["a", "a", "b", "b"] ∈ balanced.sentences "S" 15 .leftmost ∧
      ["a", "a", "b", "b"].length ≤ 7 + 1 ∧ ["a", "a", "b", "b"].length ≤ 2 ^ 4 := by
  have hdefined : balanced.undefinedNames = ∅ := by decide +kernel
  have hstart : balanced.defines "S" = true := by decide
  have hleft : ["a", "a", "b", "b"] ∈ balanced.sentences "S" 7 .leftmost := by decide +kernel
  obtain ⟨hparallel, -, hlength, -, -⟩ := sentences_leftmost_parallel_bounds balanced "S" 7
  obtain ⟨-, hback, -, hlength', hhalf⟩ := sentences_leftmost_parallel_bounds balanced "S" 4
  have hfour := hhalf hdefined hstart _ hleft
  exact ⟨hdefined, hstart, hleft, hparallel _ hleft, hfour, hback _ hfour, (hlength _ hleft).2,
    (hlength' _ hfour).2⟩

/-- With an undefined name the last bound fails: three steps make a comb of three levels. -/
example :
    let g : Grammar := .ofRules [⟨"S", .binary "S" "A"⟩, ⟨"S", .unary "a"⟩]
    ["a", "A", "A"] ∈ g.sentences "S" (2 * 2 - 1) .leftmost ∧
      ["a", "A", "A"] ∉ g.sentences "S" 2 .parallel := by
  decide +kernel

end Grammar

end Chomsky
