import Chomsky.Proofs.Chart.Cells
import Chomsky.Proofs.Derivation.Rewriting
import Chomsky.Recogniser

/-!
# The chart decides derivability

A name stands in the cell of a span exactly when a derivation tree over it has the tokens of the
span at its leaves. The two directions follow two different recursions:

* **`exists_tree_of_mem_members`**: a cell of `n` tokens is composed from cells of fewer tokens, so
  the tree is built by induction on the length of the span.
* **`mem_members_of_tree`**: a tree is taken apart at its root. Where the leaves of its left subtree
  end, the span is cut, and that cut is among those that the chart tries.

**`mem_cell_iff_tree_and_accepts_iff_derives`** states both for every cell, and what follows for the
sentence as a whole: it is accepted exactly when rewriting leads from the start symbol to it.
-/

namespace Chomsky

namespace Chart

variable {g : Grammar} {w : Sentence} {span : Span} {name : String}

/-! ## What the cells mean in the grammar -/

theorem mem_members_of_length_one (hone : span.length = 1) (h : span.start < w.length) :
    name ∈ (ofTokens (.ofGrammar g) w).members span ↔ ⟨name, .unary w[span.start]⟩ ∈ g.rules := by
  rw [mem_members, cell?_ofTokens_of_length_one hone h]
  apply Iff.intro
  · intro hmem
    obtain ⟨cell, hcell, hname⟩ := hmem
    obtain rfl := Option.some.inj hcell
    exact Producers.mem_of_ofGrammar.mp hname
  · intro hrule
    exact ⟨_, rfl, Producers.mem_of_ofGrammar.mpr hrule⟩

theorem mem_members_of_two_le (htwo : 2 ≤ span.length)
    (h : span.start + span.length ≤ w.length) :
    name ∈ (ofTokens (.ofGrammar g) w).members span ↔
      ∃ front back, (front, back) ∈ span.cuts ∧
        ∃ b ∈ (ofTokens (.ofGrammar g) w).members front,
          ∃ c ∈ (ofTokens (.ofGrammar g) w).members back, ⟨name, .binary b c⟩ ∈ g.rules := by
  rw [mem_members, cell?_ofTokens_of_two_le htwo h]
  apply Iff.intro
  · intro hmem
    obtain ⟨cell, hcell, hname⟩ := hmem
    obtain rfl := Option.some.inj hcell
    obtain ⟨front, back, hcut, b, hb, c, hc, hproducer⟩ := mem_compose.mp hname
    exact ⟨front, back, hcut, b, hb, c, hc, Producers.mem_of_ofGrammar.mp hproducer⟩
  · intro hmem
    obtain ⟨front, back, hcut, b, hb, c, hc, hrule⟩ := hmem
    have hproducer := Producers.mem_of_ofGrammar.mpr hrule
    exact ⟨_, rfl, mem_compose.mpr ⟨front, back, hcut, b, hb, c, hc, hproducer⟩⟩

/-! ## From cells to trees and back -/

/-- **Soundness of the cells.** Induction on the length of the span. -/
theorem exists_tree_of_mem_members (hpos : 1 ≤ span.length)
    (h : span.start + span.length ≤ w.length)
    (hname : name ∈ (ofTokens (.ofGrammar g) w).members span) :
    ∃ tree : Tree, tree.ValidFor g ∧ tree.root = .nonterminal name ∧
      tree.fringe = (span.tokens w).map Symbol.terminal := by
  induction hn : span.length using Nat.strongRecOn generalizing span name with
  | _ n ih =>
    by_cases hone : span.length = 1
    · have hstart : span.start < w.length := by omega
      have hrule := (mem_members_of_length_one hone hstart).mp hname
      refine ⟨.unary name w[span.start], .unary hrule, rfl, ?_⟩
      rw [Span.tokens_of_length_one hone hstart]
      rfl
    · -- both parts of the cut are shorter, so the induction applies to them
      have htwo : 2 ≤ span.length := by omega
      obtain ⟨front, back, hcut, b, hb, c, hc, hrule⟩ := (mem_members_of_two_le htwo h).mp hname
      obtain ⟨hstart, hfrontPos, hfrontLt, hback, hlength⟩ := Span.mem_cuts.mp hcut
      obtain ⟨left, hleft, hleftRoot, hleftFringe⟩ :=
        ih front.length (by omega) hfrontPos (by omega) hb rfl
      obtain ⟨right, hright, hrightRoot, hrightFringe⟩ :=
        ih back.length (by omega) (by omega) (by omega) hc rfl
      refine ⟨.binary name left right, .binary hrule hleftRoot hrightRoot hleft hright, rfl, ?_⟩
      rw [Tree.fringe, hleftFringe, hrightFringe, Span.tokens_eq_append_of_mem_cuts hcut,
        List.map_append]

/-- **Completeness of the cells.** Induction on the tree. -/
theorem mem_members_of_tree {tree : Tree} (h : span.start + span.length ≤ w.length)
    (htree : tree.ValidFor g) (hroot : tree.root = .nonterminal name)
    (hfringe : tree.fringe = (span.tokens w).map Symbol.terminal) :
    name ∈ (ofTokens (.ofGrammar g) w).members span := by
  induction htree generalizing name span with
  | @leaf s hstop =>
    rw [show s = .nonterminal name from hroot] at hfringe
    exact absurd hfringe (Tree.singleton_nonterminal_ne_terminals name _)
  | @unary _ token hrule =>
    obtain rfl := Symbol.nonterminal.inj hroot
    have hone : span.length = 1 := by
      rw [← Span.length_tokens h]
      simpa using (congrArg List.length hfringe).symm
    have hstart : span.start < w.length := by omega
    rw [Span.tokens_of_length_one hone hstart] at hfringe
    obtain rfl : token = w[span.start] := Symbol.terminal.inj (List.cons.inj hfringe).1
    exact (mem_members_of_length_one hone hstart).mpr hrule
  | @binary _ b c left right hrule hb hc hleft hright ihl ihr =>
    obtain rfl := Symbol.nonterminal.inj hroot
    obtain ⟨u, v, huv, hu, hv⟩ := Tree.exists_of_append_eq_terminals hfringe
    have hune : u ≠ [] := by
      intro hnil
      rw [hnil] at hu
      exact left.fringe_ne_nil hu
    have hvne : v ≠ [] := by
      intro hnil
      rw [hnil] at hv
      exact right.fringe_ne_nil hv
    -- the leaves of the two subtrees cut the span, and the chart tries every cut
    obtain ⟨front, back, hcut, rfl, rfl⟩ := Span.exists_cut_of_tokens_eq_append h huv hune hvne
    obtain ⟨hstart, hpos, hlt, hback, hlength⟩ := Span.mem_cuts.mp hcut
    have hbmem := ihl (by omega) hb hu
    have hcmem := ihr (by omega) hc hv
    exact (mem_members_of_two_le (by omega) h).mpr
      ⟨front, back, hcut, b, hbmem, c, hcmem, hrule⟩

theorem mem_members_iff_tree (hpos : 1 ≤ span.length) (h : span.start + span.length ≤ w.length) :
    name ∈ (ofTokens (.ofGrammar g) w).members span ↔ ∃ tree : Tree, tree.ValidFor g ∧
      tree.root = .nonterminal name ∧ tree.fringe = (span.tokens w).map Symbol.terminal := by
  apply Iff.intro
  · exact exists_tree_of_mem_members hpos h
  · intro hmem
    obtain ⟨tree, htree, hroot, hfringe⟩ := hmem
    exact mem_members_of_tree h htree hroot hfringe

theorem exists_cell (hpos : 1 ≤ span.length) (h : span.start + span.length ≤ w.length) :
    ∃ cell, (ofTokens (.ofGrammar g) w).cell? span = some cell :=
  Option.isSome_iff_exists.mp (isSome_cell?_ofTokens_iff.mpr ⟨hpos, h⟩)

/-- There is a cell for every span of the sentence, and it holds the roots of the trees over it. -/
theorem exists_cell_iff_tree (hpos : 1 ≤ span.length) (h : span.start + span.length ≤ w.length) :
    ∃ cell, (ofTokens (.ofGrammar g) w).cell? span = some cell ∧
      ∀ name, name ∈ cell ↔ ∃ tree : Tree, tree.ValidFor g ∧ tree.root = .nonterminal name ∧
        tree.fringe = (span.tokens w).map Symbol.terminal := by
  obtain ⟨cell, hcell⟩ := exists_cell hpos h
  refine ⟨cell, hcell, fun name => ?_⟩
  have hmembers : name ∈ cell ↔ name ∈ (ofTokens (.ofGrammar g) w).members span := by
    rw [mem_members, hcell]
    simp
  rw [hmembers]
  exact mem_members_iff_tree hpos h

end Chart

namespace Recogniser

variable {g : Grammar} {start : String} {w : Sentence}

/-- The verdict is read off the cell of the whole sentence. -/
theorem accepts_iff_mem_members :
    (ofGrammar g start).accepts w = true ↔
      start ∈ (Chart.ofTokens (.ofGrammar g) w).members ⟨0, w.length⟩ := by
  have hspanning : ((ofGrammar g start).chart w).spanning? =
      (Chart.ofTokens (.ofGrammar g) w).cell? ⟨0, w.length⟩ := by
    show (Chart.ofTokens (.ofGrammar g) w).cell? ⟨0, (Chart.ofTokens (.ofGrammar g) w).size⟩ = _
    rw [Chart.size_ofTokens]
  rw [accepts, hspanning, Chart.mem_members]
  cases (Chart.ofTokens (.ofGrammar g) w).cell? ⟨0, w.length⟩ with
  | none => simp
  | some cell =>
    show decide (start ∈ cell) = true ↔ ∃ other, some cell = some other ∧ start ∈ other
    rw [decide_eq_true_iff]
    simp

/-- **What is accepted.** The sentences at the leaves of the trees over the start symbol. -/
theorem accepts_iff_tree :
    (ofGrammar g start).accepts w = true ↔ ∃ tree : Tree, tree.ValidFor g ∧
      tree.root = .nonterminal start ∧ tree.fringe = w.map Symbol.terminal := by
  have htokens : (⟨0, w.length⟩ : Span).tokens w = w := by
    show (w.drop 0).take w.length = w
    rw [List.drop_zero, List.take_length]
  rw [accepts_iff_mem_members]
  apply Iff.intro
  · intro hmem
    have hpos : 1 ≤ w.length := by
      cases w with
      | nil => exact absurd hmem List.not_mem_nil
      | cons token rest => exact Nat.succ_pos rest.length
    have hsound := Chart.exists_tree_of_mem_members hpos (by simp) hmem
    rw [htokens] at hsound
    exact hsound
  · intro h
    obtain ⟨tree, htree, hroot, hfringe⟩ := h
    refine Chart.mem_members_of_tree (by simp) htree hroot ?_
    rw [htokens]
    exact hfringe

/-- The empty sentence is derived from nothing, so nothing is lost by not accepting it. -/
theorem accepts_iff_derives :
    (ofGrammar g start).accepts w = true ↔ w ≠ [] ∧ g.Derives start w := by
  rw [accepts_iff_tree, derives_iff_tree]
  apply Iff.intro
  · intro h
    obtain ⟨tree, htree, hroot, hfringe⟩ := h
    have hne : w ≠ [] := by
      intro hnil
      rw [hnil] at hfringe
      exact tree.fringe_ne_nil hfringe
    exact ⟨hne, tree, htree, hroot, hfringe⟩
  · intro h
    exact h.2

/-- **The chart is sound and complete at every cell.** For any grammar and any sentence, the cell of
a span inside the sentence holds the names that derive the tokens of the span; hence the sentences
that are accepted are those that rewriting the start symbol leads to, and the empty one is none of
them. -/
theorem mem_cell_iff_tree_and_accepts_iff_derives (g : Grammar) (start : String) (w : Sentence) :
    (∀ span : Span, 1 ≤ span.length → span.start + span.length ≤ w.length →
      ∃ cell, ((ofGrammar g start).chart w).cell? span = some cell ∧
        ∀ name, name ∈ cell ↔ ∃ tree : Tree, tree.ValidFor g ∧ tree.root = .nonterminal name ∧
          tree.fringe = (span.tokens w).map Symbol.terminal) ∧
    ((ofGrammar g start).accepts w = true ↔ w ≠ [] ∧ g.Derives start w) :=
  ⟨fun _ hpos h => Chart.exists_cell_iff_tree hpos h, accepts_iff_derives⟩

/-- In the chart of `a a b b`, the last three tokens are derived by `C`, and all four by `S`. -/
theorem mem_cell_balanced_and_derives_balanced :
    (∃ cell, ((ofGrammar balanced "S").chart ["a", "a", "b", "b"]).cell? ⟨1, 3⟩ = some cell ∧
      "C" ∈ cell) ∧
    balanced.Derives "S" ["a", "a", "b", "b"] := by
  obtain ⟨hcells, hverdict⟩ :=
    mem_cell_iff_tree_and_accepts_iff_derives balanced "S" ["a", "a", "b", "b"]
  obtain ⟨cell, hcell, hmem⟩ := hcells ⟨1, 3⟩ (by decide) (by decide)
  have hA : (Tree.unary "A" "a").ValidFor balanced := .unary (by decide)
  have hB : (Tree.unary "B" "b").ValidFor balanced := .unary (by decide)
  have hS : (Tree.binary "S" (.unary "A" "a") (.unary "B" "b")).ValidFor balanced :=
    .binary (by decide) rfl rfl hA hB
  have hC : (Tree.binary "C" (.binary "S" (.unary "A" "a") (.unary "B" "b"))
      (.unary "B" "b")).ValidFor balanced :=
    .binary (by decide) rfl rfl hS hB
  exact ⟨⟨cell, hcell, (hmem "C").mpr ⟨_, hC, rfl, rfl⟩⟩, (hverdict.mp (by decide)).2⟩

end Recogniser

end Chomsky
