import Chomsky.Proofs.Derivation.Enumeration

/-!
# The sentences within a depth

A search by parallel steps works on whole forms, level by level. What it finds can be said without
forms, one name at a time (`Grammar.sentencesOfDepth`): within no depth a defined name derives
nothing, and within one level more it derives what its productions spell when the names that they
write have one level less. **`sentences_parallel_eq_sentencesOfDepth`** says that the two agree.

Both are compared with derivation trees. In a tree the two names of a production stand side by side,
each with a subtree and a height of its own, whatever the height of the other.
-/

namespace Chomsky

/-- What a production spells, if the names that it writes are given their sentences. -/
def Production.sentences (sentencesOf : String → Language) : Production → List Sentence
  | unary token => [[token]]
  | binary b c => (sentencesOf b).toList.flatMap fun u => (sentencesOf c).toList.map (u ++ ·)

/-- The sentences that a name derives within a depth. An undefined name derives itself. -/
def Grammar.sentencesOfDepth (g : Grammar) : (depth : Nat) → (name : String) → Language
  | depth, name =>
    match g.productions? name, depth with
    | none, _ => {[name]}
    | some _, 0 => ∅
    | some productions, depth + 1 =>
      .ofList (productions.toList.flatMap (Production.sentences (g.sentencesOfDepth depth)))

variable {g : Grammar} {name : String} {depth : Nat} {w : Sentence}

/-! ## The recursion, case by case -/

theorem Production.mem_sentences_binary {sentencesOf : String → Language} {b c : String} :
    w ∈ (Production.binary b c).sentences sentencesOf ↔
      ∃ u ∈ sentencesOf b, ∃ v ∈ sentencesOf c, u ++ v = w := by
  simp [Production.sentences]

namespace Grammar

theorem sentencesOfDepth_of_undefined (h : g.productions? name = none) :
    g.sentencesOfDepth depth name = {[name]} := by
  unfold sentencesOfDepth
  rw [h]

theorem sentencesOfDepth_zero {ps : Productions} (h : g.productions? name = some ps) :
    g.sentencesOfDepth 0 name = ∅ := by
  unfold sentencesOfDepth
  rw [h]

theorem mem_sentencesOfDepth_succ {ps : Productions} (h : g.productions? name = some ps) :
    w ∈ g.sentencesOfDepth (depth + 1) name ↔
      ∃ p ∈ ps, w ∈ p.sentences (g.sentencesOfDepth depth) := by
  simp [sentencesOfDepth, h, Std.ExtTreeSet.mem_ofList]

/-! ## The recursion and the trees -/

theorem exists_tree_of_undefined (hname : g.productions? name = none)
    (h : w ∈ g.sentencesOfDepth depth name) :
    ∃ tree : Tree, tree.ValidFor g ∧ tree.root = .nonterminal name ∧ tree.fringe.sentence = w ∧
      tree.height ≤ depth := by
  rw [sentencesOfDepth_of_undefined hname] at h
  have hw : [name] = w := by simpa using h
  exact ⟨.leaf (.nonterminal name), .leaf hname, rfl, hw, Nat.zero_le depth⟩

/-- Each sentence within a depth stands at the leaves of a tree. Induction on the depth. -/
theorem exists_tree_of_mem_sentencesOfDepth (h : w ∈ g.sentencesOfDepth depth name) :
    ∃ tree : Tree, tree.ValidFor g ∧ tree.root = .nonterminal name ∧ tree.fringe.sentence = w ∧
      tree.height ≤ depth := by
  induction depth generalizing name w with
  | zero =>
    cases hname : g.productions? name with
    | none => exact exists_tree_of_undefined hname h
    | some ps =>
      rw [sentencesOfDepth_zero hname] at h
      exact absurd h Std.ExtTreeSet.not_mem_empty
  | succ depth ih =>
    cases hname : g.productions? name with
    | none => exact exists_tree_of_undefined hname h
    | some ps =>
      obtain ⟨p, hp, hw⟩ := (mem_sentencesOfDepth_succ hname).mp h
      have hrule : ⟨name, p⟩ ∈ g.rules := mem_rules.mpr ⟨ps, hname, hp⟩
      cases p with
      | unary token =>
        obtain rfl := List.mem_singleton.mp hw
        exact ⟨.unary name token, .unary hrule, rfl, rfl, Nat.succ_le_succ (Nat.zero_le _)⟩
      | binary b c =>
        obtain ⟨u, hu, v, hv, rfl⟩ := Production.mem_sentences_binary.mp hw
        obtain ⟨left, hleft, hb, rfl, hleftHeight⟩ := ih hu
        obtain ⟨right, hright, hc, rfl, hrightHeight⟩ := ih hv
        refine ⟨.binary name left right, .binary hrule hb hc hleft hright, rfl, ?_, ?_⟩
        · exact List.map_append
        · show max left.height right.height + 1 ≤ depth + 1
          omega

/-- The sentence at the leaves of a tree is found within any depth that the tree fits into.
Induction on the tree, since its two subtrees may be of different height. -/
theorem mem_sentencesOfDepth_of_tree {tree : Tree} (htree : tree.ValidFor g)
    (hroot : tree.root = .nonterminal name) (hheight : tree.height ≤ depth) :
    tree.fringe.sentence ∈ g.sentencesOfDepth depth name := by
  induction htree generalizing name depth with
  | @leaf s hstop =>
    have hname : g.productions? name = none := by
      rw [show s = .nonterminal name from hroot] at hstop
      exact hstop
    rw [sentencesOfDepth_of_undefined hname, Tree.fringe, show s = .nonterminal name from hroot]
    simp [Form.sentence, Symbol.text]
  | @unary _ token hrule =>
    obtain rfl := Symbol.nonterminal.inj hroot
    obtain ⟨ps, hps, hp⟩ := mem_rules.mp hrule
    obtain ⟨depth, rfl⟩ := Nat.exists_eq_add_one_of_ne_zero (Nat.ne_of_gt hheight)
    exact (mem_sentencesOfDepth_succ hps).mpr ⟨_, hp, List.mem_singleton.mpr rfl⟩
  | @binary _ b c left right hrule hb hc hleft hright ihl ihr =>
    obtain rfl := Symbol.nonterminal.inj hroot
    obtain ⟨ps, hps, hp⟩ := mem_rules.mp hrule
    have hlevels : max left.height right.height + 1 ≤ depth := hheight
    obtain ⟨depth, rfl⟩ : ∃ d, depth = d + 1 := ⟨depth - 1, by omega⟩
    have hleftMem := ihl hb (show left.height ≤ depth by omega)
    have hrightMem := ihr hc (show right.height ≤ depth by omega)
    refine (mem_sentencesOfDepth_succ hps).mpr ⟨_, hp, ?_⟩
    exact Production.mem_sentences_binary.mpr ⟨_, hleftMem, _, hrightMem, List.map_append.symm⟩

/-- **Parallel steps enumerate by depth.** Within a bound on the parallel steps, a search finds the
sentences that the recursion on the depth gives. -/
theorem sentences_parallel_eq_sentencesOfDepth (g : Grammar) (name : String) (bound : Nat) :
    g.sentences name bound .parallel = g.sentencesOfDepth bound name := by
  apply Std.ExtTreeSet.ext_mem
  intro w
  rw [mem_sentences_parallel_iff_tree]
  apply Iff.intro
  · intro h
    obtain ⟨tree, hvalid, hroot, rfl, hheight⟩ := h
    exact mem_sentencesOfDepth_of_tree hvalid hroot hheight
  · exact exists_tree_of_mem_sentencesOfDepth

/-- Two levels suffice for `a b`, and the next sentence takes two more. -/
example : balanced.sentencesOfDepth 3 "S" = {["a", "b"]} ∧
    balanced.sentencesOfDepth 4 "S" = {["a", "b"], ["a", "a", "b", "b"]} := by
  decide +kernel

end Grammar

end Chomsky
