import Chomsky.Proofs.Derivation.Rewriting

/-!
# Parallel steps take off levels

A parallel step replaces every expandable name of a form at once. On the trees that stand over the
form this takes the production at the root off every tree, so each step lowers all of them by one
level, and those that were leaves already wait for the others:

* **`map_root_flatMap_children_mem`**: the children of a forest stand over a form that one joint
  step leads to.
* **`exists_forest_of_mem_jointSteps`**: conversely, trees over the form that a joint step led to
  are the children of trees over the form before it. A position with nothing to choose has no form
  after it, so a step past a dead name has no forest either.
* **`run_parallel_iff_forest`**: the parallel runs to a complete form are the forests of that many
  levels, and **`run_parallel_iff_tree`** says it for one symbol.
-/

namespace Chomsky

variable {g : Grammar}

/-! ## The levels of a forest -/

/-- The number of levels of the highest tree of a forest. -/
def forestHeight : List Tree → Nat
  | [] => 0
  | tree :: rest => max tree.height (forestHeight rest)

@[simp] theorem forestHeight_append (before after : List Tree) :
    forestHeight (before ++ after) = max (forestHeight before) (forestHeight after) := by
  induction before with
  | nil => exact (Nat.zero_max _).symm
  | cons tree rest ih =>
    rw [List.cons_append, forestHeight, forestHeight, ih]
    omega

@[simp] theorem forestHeight_children (tree : Tree) : forestHeight tree.children = tree.height - 1 := by
  cases tree with
  | leaf s => rfl
  | unary name token => rfl
  | binary name left right =>
    show max left.height (max right.height 0) = max left.height right.height + 1 - 1
    omega

@[simp] theorem forestHeight_flatMap_children (forest : List Tree) :
    forestHeight (forest.flatMap Tree.children) = forestHeight forest - 1 := by
  induction forest with
  | nil => rfl
  | cons tree rest ih =>
    rw [List.flatMap_cons, forestHeight_append, ih, forestHeight_children, forestHeight]
    omega

@[simp] theorem fringe_flatMap_children (forest : List Tree) :
    (forest.flatMap Tree.children).flatMap Tree.fringe = forest.flatMap Tree.fringe := by
  rw [List.flatMap_assoc]
  simp only [Tree.fringe_children]

/-! ## Where no level is left

A valid tree without levels is a leaf that cannot be expanded, and any other valid tree has a rule
at its root. So a forest is flat exactly when the form below it is complete. -/

theorem Tree.ValidFor.height_eq_zero_iff {tree : Tree} (h : tree.ValidFor g) :
    tree.height = 0 ↔ g.options? tree.root = none := by
  cases h with
  | leaf hstop => exact iff_of_true rfl hstop
  | unary hrule =>
    exact iff_of_false (Nat.succ_ne_zero _) (Grammar.options?_ne_none_of_mem_rules hrule)
  | binary hrule =>
    exact iff_of_false (Nat.succ_ne_zero _) (Grammar.options?_ne_none_of_mem_rules hrule)

theorem complete_map_root_iff {forest : List Tree} (h : ∀ tree ∈ forest, tree.ValidFor g) :
    g.complete (forest.map Tree.root) = true ↔ forestHeight forest = 0 := by
  induction forest with
  | nil => exact iff_of_true (Grammar.complete_nil g) rfl
  | cons tree rest ih =>
    have htree := (h tree List.mem_cons_self).height_eq_zero_iff
    have hrest := ih fun other hother => h other (List.mem_cons_of_mem _ hother)
    rw [List.map_cons, Grammar.complete_cons, forestHeight, hrest, ← htree]
    omega

theorem Tree.eq_leaf_of_height_eq_zero {tree : Tree} (h : tree.height = 0) :
    tree = .leaf tree.root := by
  cases tree with
  | leaf s => rfl
  | unary name token => exact absurd h (Nat.succ_ne_zero _)
  | binary name left right => exact absurd h (Nat.succ_ne_zero _)

/-- Over a complete form stand leaves only, so the form is also what is at the leaves. -/
theorem flatMap_fringe_of_forestHeight_eq_zero {forest : List Tree} (h : forestHeight forest = 0) :
    forest.flatMap Tree.fringe = forest.map Tree.root := by
  induction forest with
  | nil => rfl
  | cons tree rest ih =>
    rw [forestHeight] at h
    have hleaf := tree.eq_leaf_of_height_eq_zero (by omega)
    have hrest := ih (by omega)
    rw [List.flatMap_cons, List.map_cons, hrest, hleaf]
    rfl

/-! ## One step -/

theorem mem_choices {s : Symbol} {form : Form} :
    form ∈ g.choices s ↔
      (∃ name p, s = .nonterminal name ∧ ⟨name, p⟩ ∈ g.rules ∧ form = p.symbols) ∨
        g.options? s = none ∧ form = [s] := by
  apply Iff.intro
  · intro h
    unfold Grammar.choices at h
    cases hs : g.options? s with
    | none =>
      rw [hs] at h
      exact Or.inr ⟨rfl, List.mem_singleton.mp h⟩
    | some ps =>
      rw [hs] at h
      obtain ⟨p, hp, rfl⟩ := List.mem_map.mp h
      obtain ⟨name, hname, hrule⟩ :=
        Grammar.exists_mem_options?_iff.mp ⟨ps, hs, Std.ExtTreeSet.mem_toList.mp hp⟩
      exact Or.inl ⟨name, p, hname, hrule, rfl⟩
  · intro h
    unfold Grammar.choices
    rcases h with ⟨name, p, rfl, hrule, rfl⟩ | ⟨hs, rfl⟩
    · obtain ⟨ps, hps, hp⟩ := Grammar.exists_mem_options?_iff.mpr ⟨name, rfl, hrule⟩
      rw [hps]
      exact List.mem_map_of_mem (Std.ExtTreeSet.mem_toList.mpr hp)
    · rw [hs]
      exact List.mem_singleton.mpr rfl

theorem Tree.ValidFor.map_root_children_mem {tree : Tree} (h : tree.ValidFor g) :
    tree.children.map Tree.root ∈ g.choices tree.root := by
  cases h with
  | leaf hstop => exact mem_choices.mpr (Or.inr ⟨hstop, rfl⟩)
  | @unary name token hrule => exact mem_choices.mpr (Or.inl ⟨name, _, rfl, hrule, rfl⟩)
  | @binary name b c left right hrule hb hc =>
    refine mem_choices.mpr (Or.inl ⟨name, _, rfl, hrule, ?_⟩)
    show [left.root, right.root] = [.nonterminal b, .nonterminal c]
    rw [hb, hc]

theorem Tree.ValidFor.of_mem_children {tree child : Tree} (h : tree.ValidFor g)
    (hchild : child ∈ tree.children) : child.ValidFor g := by
  cases h with
  | leaf hstop =>
    obtain rfl := List.mem_singleton.mp hchild
    exact .leaf hstop
  | unary =>
    obtain rfl := List.mem_singleton.mp hchild
    exact .leaf rfl
  | binary _ _ _ hleft hright =>
    rcases List.mem_cons.mp hchild with rfl | hchild
    · exact hleft
    · obtain rfl := List.mem_singleton.mp hchild
      exact hright

/-- **From a forest to a joint step.** Induction on the forest: each tree makes its own choice. -/
theorem map_root_flatMap_children_mem {forest : List Tree}
    (h : ∀ tree ∈ forest, tree.ValidFor g) :
    (forest.flatMap Tree.children).map Tree.root ∈ g.jointSteps (forest.map Tree.root) := by
  induction forest with
  | nil => exact List.mem_singleton.mpr rfl
  | cons tree rest ih =>
    have hchoice := (h tree List.mem_cons_self).map_root_children_mem
    have htail := ih fun other hother => h other (List.mem_cons_of_mem _ hother)
    rw [List.flatMap_cons, List.map_append, List.map_cons]
    exact Grammar.mem_jointSteps_cons.mpr ⟨_, hchoice, _, htail, rfl⟩

theorem exists_tree_of_mem_choices {s : Symbol} {forest : List Tree}
    (hforest : ∀ tree ∈ forest, tree.ValidFor g) (h : forest.map Tree.root ∈ g.choices s) :
    ∃ tree : Tree, tree.ValidFor g ∧ tree.root = s ∧ tree.children = forest := by
  rcases mem_choices.mp h with ⟨name, p, rfl, hrule, hroots⟩ | ⟨hstop, hroots⟩
  · obtain ⟨tree, hvalid, hroot, hchildren, -⟩ := exists_tree_of_symbols hrule hforest hroots
    exact ⟨tree, hvalid, hroot, hchildren⟩
  · obtain ⟨tree, rest, rfl, rfl, hrest⟩ := List.map_eq_cons_iff.mp hroots
    obtain rfl := List.map_eq_nil_iff.mp hrest
    have hvalid := hforest tree List.mem_cons_self
    -- a tree over a symbol that cannot be expanded is a leaf, and a leaf is its own child
    have hheight : tree.height = 0 := hvalid.height_eq_zero_iff.mpr hstop
    refine ⟨tree, hvalid, rfl, ?_⟩
    rw [tree.eq_leaf_of_height_eq_zero hheight]
    rfl

/-- **From a joint step to a forest.** Induction on the form before the step, whose first symbol
takes as many of the trees as its choice has symbols. -/
theorem exists_forest_of_mem_jointSteps {form : Form} {forest : List Tree}
    (hforest : ∀ tree ∈ forest, tree.ValidFor g)
    (h : forest.map Tree.root ∈ g.jointSteps form) :
    ∃ parents : List Tree, (∀ tree ∈ parents, tree.ValidFor g) ∧ parents.map Tree.root = form ∧
      parents.flatMap Tree.children = forest := by
  induction form generalizing forest with
  | nil =>
    obtain rfl := List.map_eq_nil_iff.mp (List.mem_singleton.mp h)
    exact ⟨[], by simp, rfl, rfl⟩
  | cons s rest ih =>
    obtain ⟨u, hu, v, hv, happend⟩ := Grammar.mem_jointSteps_cons.mp h
    obtain ⟨front, back, rfl, rfl, rfl⟩ := List.map_eq_append_iff.mp happend
    obtain ⟨tree, htree, hroot, hchildren⟩ :=
      exists_tree_of_mem_choices (fun t ht => hforest t (List.mem_append_left _ ht)) hu
    obtain ⟨parents, hparents, hroots, hrest⟩ :=
      ih (fun t ht => hforest t (List.mem_append_right _ ht)) hv
    refine ⟨tree :: parents, ?_, ?_, ?_⟩
    · intro other hother
      rcases List.mem_cons.mp hother with rfl | hother
      · exact htree
      · exact hparents other hother
    · rw [List.map_cons, hroot, hroots]
    · rw [List.flatMap_cons, hchildren, hrest]

/-! ## Runs -/

theorem stepsTo_parallel_iff {form next : Form} :
    g.StepsTo .parallel form next ↔ g.complete form = false ∧ next ∈ g.jointSteps form := by
  show next ∈ (if g.complete form then [] else g.jointSteps form) ↔ _
  cases g.complete form <;> simp

/-- A forest is walked level by level. Induction on the number of levels: a forest that has one
left stands over a form that is not complete, and its children have one level less. -/
theorem run_parallel_of_forest {n : Nat} {forest : List Tree}
    (h : ∀ tree ∈ forest, tree.ValidFor g) (hheight : forestHeight forest = n) :
    Run (g.StepsTo .parallel) n (forest.map Tree.root) (forest.flatMap Tree.fringe) := by
  induction n generalizing forest with
  | zero =>
    rw [flatMap_fringe_of_forestHeight_eq_zero hheight]
    exact .refl _
  | succ n ih =>
    have hopen : g.complete (forest.map Tree.root) = false := by
      rw [Bool.eq_false_iff, Ne, complete_map_root_iff h]
      omega
    have hstep := stepsTo_parallel_iff.mpr ⟨hopen, map_root_flatMap_children_mem h⟩
    have hchildren : ∀ tree ∈ forest.flatMap Tree.children, tree.ValidFor g := by
      intro child hchild
      obtain ⟨tree, htree, hmem⟩ := List.mem_flatMap.mp hchild
      exact (h tree htree).of_mem_children hmem
    have hlower : forestHeight (forest.flatMap Tree.children) = n := by
      rw [forestHeight_flatMap_children, hheight, Nat.add_sub_cancel]
    have hrest := ih hchildren hlower
    rw [fringe_flatMap_children] at hrest
    exact .cons hstep hrest

/-- **Parallel runs are forests**, with as many steps as the forest has levels. The run is folded up
from its end, where there are leaves only. -/
theorem run_parallel_iff_forest {n : Nat} {form final : Form} :
    (Run (g.StepsTo .parallel) n form final ∧ g.complete final = true) ↔
      ∃ forest : List Tree, (∀ tree ∈ forest, tree.ValidFor g) ∧ forest.map Tree.root = form ∧
        forest.flatMap Tree.fringe = final ∧ forestHeight forest = n := by
  apply Iff.intro
  · intro h
    obtain ⟨hrun, hfinal⟩ := h
    induction hrun with
    | refl form =>
      obtain ⟨forest, hvalid, hroots, hfringe, -⟩ := exists_forest_of_run (.refl form) hfinal
      refine ⟨forest, hvalid, hroots, hfringe, ?_⟩
      rw [← complete_map_root_iff hvalid, hroots]
      exact hfinal
    | cons hstep _ ih =>
      obtain ⟨hopen, hjoint⟩ := stepsTo_parallel_iff.mp hstep
      obtain ⟨children, hchildren, rfl, hfringe, hheight⟩ := ih hfinal
      obtain ⟨forest, hvalid, rfl, rfl⟩ := exists_forest_of_mem_jointSteps hchildren hjoint
      refine ⟨forest, hvalid, rfl, ?_, ?_⟩
      · rw [← hfringe, fringe_flatMap_children]
      · have hlevel : forestHeight forest ≠ 0 := by
          rw [Ne, ← complete_map_root_iff hvalid, hopen]
          exact Bool.false_ne_true
        rw [forestHeight_flatMap_children] at hheight
        omega
  · intro h
    obtain ⟨forest, hvalid, rfl, rfl, hheight⟩ := h
    refine ⟨run_parallel_of_forest hvalid hheight, ?_⟩
    rw [Grammar.complete, List.all_flatMap, List.all_eq_true]
    intro tree htree
    exact (hvalid tree htree).complete_fringe

theorem run_parallel_iff_tree {n : Nat} {s : Symbol} {final : Form} :
    (Run (g.StepsTo .parallel) n [s] final ∧ g.complete final = true) ↔
      ∃ tree : Tree, tree.ValidFor g ∧ tree.root = s ∧ tree.fringe = final ∧ tree.height = n := by
  rw [run_parallel_iff_forest]
  apply Iff.intro
  · intro h
    obtain ⟨forest, hvalid, hroots, hfringe, hheight⟩ := h
    obtain ⟨tree, rest, rfl, hroot, hrest⟩ := List.map_eq_cons_iff.mp hroots
    obtain rfl := List.map_eq_nil_iff.mp hrest
    refine ⟨tree, hvalid tree List.mem_cons_self, hroot, by simpa using hfringe, ?_⟩
    simpa [forestHeight] using hheight
  · intro h
    obtain ⟨tree, hvalid, rfl, rfl, rfl⟩ := h
    refine ⟨[tree], ?_, rfl, List.flatMap_singleton _ _, Nat.max_zero _⟩
    intro other hother
    obtain rfl := List.mem_singleton.mp hother
    exact hvalid

end Chomsky
