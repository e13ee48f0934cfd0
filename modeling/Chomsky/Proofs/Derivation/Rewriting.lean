import Chomsky.Proofs.Derivation.Tree

/-!
# Rewriting in any order

A form may be rewritten at any of its names. Searching for sentences follows one order only, the
leftmost, and this module shows that nothing depends on the order, not even the number of rewrites:

* **`exists_forest_of_run`**: a run of rewrites in any order, up to a form that cannot be rewritten
  further, is the same as a tree over each symbol it started from. The run is folded up from its
  end; the rewrite in front of it joins the trees of the symbols that it wrote.
* **`Tree.ValidFor.run_leftmost`**: a tree is walked from the left, and each production that it uses
  is one leftmost step.
* **`run_rewrites_iff_tree`** and **`run_leftmost_iff_tree`**: runs in any order, leftmost runs and
  trees are three descriptions of the same derivations, and the length of the run is the size of the
  tree.
-/

namespace Chomsky

/-- Exactly `n` steps lead from one form to another. -/
inductive Run (step : Form → Form → Prop) : Nat → Form → Form → Prop where
  | refl (form : Form) : Run step 0 form form
  | cons {n : Nat} {form next final : Form} (hstep : step form next)
      (hrest : Run step n next final) : Run step (n + 1) form final

namespace Grammar

/-- One rewrite: a name that stands anywhere in the form gives way to one of its productions. -/
inductive Rewrites (g : Grammar) : Form → Form → Prop where
  | expand (front rest : Form) {name : String} {p : Production} (hrule : ⟨name, p⟩ ∈ g.rules) :
      Rewrites g (front ++ .nonterminal name :: rest) (front ++ p.symbols ++ rest)

/-- One step of the kind that a search makes. -/
def StepsTo (g : Grammar) (e : Expansion) (form next : Form) : Prop :=
  next ∈ g.successors e form

end Grammar

/-! ## Runs compose -/

namespace Run

variable {step step' : Form → Form → Prop} {m n : Nat} {form next final : Form}

theorem single (h : step form next) : Run step 1 form next :=
  .cons h (.refl next)

theorem trans (h : Run step m form next) (h' : Run step n next final) :
    Run step (m + n) form final := by
  induction h with
  | refl form => rwa [Nat.zero_add]
  | @cons k form mid next hstep _ ih =>
    rw [show k + 1 + n = (k + n) + 1 from by omega]
    exact .cons hstep (ih h')

theorem succ_iff : Run step (n + 1) form final ↔ ∃ next, Run step n form next ∧ step next final := by
  apply Iff.intro
  · intro h
    induction n generalizing form with
    | zero =>
      obtain _ | ⟨hstep, hrest⟩ := h
      cases hrest
      exact ⟨form, .refl form, hstep⟩
    | succ n ih =>
      obtain _ | ⟨hstep, hrest⟩ := h
      obtain ⟨last, hrun, hlast⟩ := ih hrest
      exact ⟨last, .cons hstep hrun, hlast⟩
  · intro h
    obtain ⟨next, hrun, hlast⟩ := h
    exact hrun.trans (.single hlast)

theorem mono (hle : ∀ {a b}, step a b → step' a b) (h : Run step n form final) :
    Run step' n form final := by
  induction h with
  | refl form => exact .refl form
  | cons hstep _ ih => exact .cons (hle hstep) ih

end Run

variable {g : Grammar}

/-! ## A leftmost step is a rewrite

It is the rewrite at the first name that has an entry: what stands before that name is complete. -/

theorem stepsTo_leftmost_iff {form next : Form} :
    g.StepsTo .leftmost form next ↔
      ∃ front name p rest, form = front ++ .nonterminal name :: rest ∧ g.complete front = true ∧
        ⟨name, p⟩ ∈ g.rules ∧ next = front ++ p.symbols ++ rest := by
  show next ∈ g.leftmostSteps form ↔ _
  rw [Grammar.mem_leftmostSteps]
  apply Iff.intro
  · intro h
    obtain ⟨front, s, rest, rfl, hfront, ps, hs, p, hp, rfl⟩ := h
    obtain ⟨name, rfl, hrule⟩ := Grammar.exists_mem_options?_iff.mp ⟨ps, hs, hp⟩
    exact ⟨front, name, p, rest, rfl, hfront, hrule, rfl⟩
  · intro h
    obtain ⟨front, name, p, rest, rfl, hfront, hrule, rfl⟩ := h
    obtain ⟨ps, hps, hp⟩ := Grammar.exists_mem_options?_iff.mpr ⟨name, rfl, hrule⟩
    exact ⟨front, .nonterminal name, rest, rfl, hfront, ps, hps, p, hp, rfl⟩

theorem rewrites_of_stepsTo_leftmost {form next : Form} (h : g.StepsTo .leftmost form next) :
    g.Rewrites form next := by
  obtain ⟨front, name, p, rest, rfl, -, hrule, rfl⟩ := stepsTo_leftmost_iff.mp h
  exact .expand front rest hrule

/-! ## From a tree to a leftmost run

The tree stands in a form whose front is complete already, so the leftmost step is always the next
node of the tree. The statement keeps the front and the rest arbitrary: for the left subtree the
rest grows by the right name, for the right subtree the front grows by the left leaves. -/

theorem Tree.ValidFor.run_leftmost {tree : Tree} (h : tree.ValidFor g) (front rest : Form)
    (hfront : g.complete front = true) :
    Run (g.StepsTo .leftmost) tree.size (front ++ tree.root :: rest)
      (front ++ tree.fringe ++ rest) := by
  induction h generalizing front rest with
  | @leaf s hstop =>
    rw [show front ++ (Tree.leaf s).fringe ++ rest = front ++ s :: rest from by simp]
    exact .refl _
  | @unary name token hrule =>
    exact .single (stepsTo_leftmost_iff.mpr ⟨front, name, _, rest, rfl, hfront, hrule, rfl⟩)
  | @binary name b c left right hrule hb hc hleft hright ihl ihr =>
    -- the root first, then the left subtree in front of the right name, then the right subtree
    have hroot : g.StepsTo .leftmost (front ++ .nonterminal name :: rest)
        (front ++ left.root :: right.root :: rest) := by
      rw [hb, hc]
      refine stepsTo_leftmost_iff.mpr ⟨front, name, .binary b c, rest, rfl, hfront, hrule, ?_⟩
      simp
    have hwalkLeft := ihl front (right.root :: rest) hfront
    have hwalkRight := ihr (front ++ left.fringe) rest
      (Grammar.complete_append.mpr ⟨hfront, hleft.complete_fringe⟩)
    have hrun := Run.cons hroot (hwalkLeft.trans hwalkRight)
    rw [show front ++ (Tree.binary name left right).fringe ++ rest =
      front ++ left.fringe ++ right.fringe ++ rest from by simp]
    exact hrun

/-! ## From a run to trees

A *forest* has a tree for each symbol of a form. Before the last form it consists of leaves; before
each rewrite, the trees of the symbols that the rewrite wrote become the subtrees of one tree. -/

/-- The number of productions that the trees of a forest use together. -/
def forestSize : List Tree → Nat
  | [] => 0
  | tree :: rest => tree.size + forestSize rest

@[simp] theorem forestSize_append (before after : List Tree) :
    forestSize (before ++ after) = forestSize before + forestSize after := by
  induction before with
  | nil =>
    rw [List.nil_append, forestSize]
    omega
  | cons tree rest ih =>
    rw [List.cons_append, forestSize, forestSize, ih]
    omega

@[simp] theorem forestSize_leaves (form : Form) : forestSize (form.map Tree.leaf) = 0 := by
  induction form with
  | nil => rfl
  | cons s rest ih =>
    rw [List.map_cons, forestSize, ih]
    rfl

/-- The trees over the symbols of a production, joined into one tree over its name. -/
theorem exists_tree_of_symbols {name : String} {p : Production} {forest : List Tree}
    (hrule : ⟨name, p⟩ ∈ g.rules) (hforest : ∀ tree ∈ forest, tree.ValidFor g)
    (hroots : forest.map Tree.root = p.symbols) :
    ∃ tree : Tree, tree.ValidFor g ∧ tree.root = .nonterminal name ∧ tree.children = forest ∧
      tree.size = forestSize forest + 1 := by
  cases p with
  | unary token =>
    obtain ⟨tree, rest, rfl, hroot, hrest⟩ := List.map_eq_cons_iff.mp hroots
    obtain rfl := List.map_eq_nil_iff.mp hrest
    obtain rfl := Tree.eq_leaf_of_root_terminal hroot
    exact ⟨.unary name token, .unary hrule, rfl, rfl, rfl⟩
  | binary b c =>
    obtain ⟨left, rest, rfl, hb, hrest⟩ := List.map_eq_cons_iff.mp hroots
    obtain ⟨right, rest, rfl, hc, hnil⟩ := List.map_eq_cons_iff.mp hrest
    obtain rfl := List.map_eq_nil_iff.mp hnil
    have hleft := hforest left (by simp)
    have hright := hforest right (by simp)
    refine ⟨.binary name left right, .binary hrule hb hc hleft hright, rfl, rfl, ?_⟩
    show left.size + right.size + 1 = left.size + (right.size + 0) + 1
    omega

/-- **A run in any order is a forest.** Induction on the run, from its end. -/
theorem exists_forest_of_run {n : Nat} {form final : Form} (h : Run g.Rewrites n form final)
    (hfinal : g.complete final = true) :
    ∃ forest : List Tree, (∀ tree ∈ forest, tree.ValidFor g) ∧ forest.map Tree.root = form ∧
      forest.flatMap Tree.fringe = final ∧ forestSize forest = n := by
  induction h with
  | refl form =>
    refine ⟨form.map Tree.leaf, ?_, ?_, ?_, ?_⟩
    · intro tree htree
      obtain ⟨s, hs, rfl⟩ := List.mem_map.mp htree
      have hstop : g.expandable s = false := by
        simpa using List.all_eq_true.mp hfinal s hs
      exact .leaf (by simpa [Grammar.expandable] using hstop)
    · simp [Function.comp_def, Tree.root]
    · simp [List.flatMap_map]
    · exact forestSize_leaves form
  | cons hstep _ ih =>
    obtain ⟨front, rest, hrule⟩ := hstep
    obtain ⟨forest, hvalid, hroots, hfringe, hsize⟩ := ih hfinal
    -- cut the forest where the form was cut
    obtain ⟨joined, after, rfl, hjoined, hafter⟩ := List.map_eq_append_iff.mp hroots
    obtain ⟨before, written, rfl, hbefore, hwritten⟩ := List.map_eq_append_iff.mp hjoined
    obtain ⟨tree, htree, hroot, rfl, htreeSize⟩ := exists_tree_of_symbols hrule
      (fun tree h => hvalid tree (by simp [h])) hwritten
    refine ⟨before ++ tree :: after, ?_, ?_, ?_, ?_⟩
    · intro other hother
      rcases List.mem_append.mp hother with h | h
      · exact hvalid other (by simp [h])
      · rcases List.mem_cons.mp h with rfl | h
        · exact htree
        · exact hvalid other (by simp [h])
    · rw [List.map_append, List.map_cons, hbefore, hroot, hafter]
    · rw [← hfringe]
      simp
    · rw [← hsize, forestSize_append, forestSize, htreeSize, forestSize_append, forestSize_append]
      omega

/-! ## Three descriptions of one derivation

A sentence is derived when some run of rewrites ends in its tokens. Such a form is complete, so the
descriptions by runs and by trees apply to it. -/

/-- Some run of rewrites leads from the name to exactly these tokens. -/
def Grammar.Derives (g : Grammar) (name : String) (w : Sentence) : Prop :=
  ∃ n, Run g.Rewrites n [.nonterminal name] (w.map Symbol.terminal)

/-- **Runs in any order are trees.** From one symbol a form that cannot be rewritten further is
reached in `n` rewrites exactly when it is at the leaves of a tree with `n` productions. -/
theorem run_rewrites_iff_tree {n : Nat} {s : Symbol} {final : Form} :
    (Run g.Rewrites n [s] final ∧ g.complete final = true) ↔
      ∃ tree : Tree, tree.ValidFor g ∧ tree.root = s ∧ tree.fringe = final ∧ tree.size = n := by
  apply Iff.intro
  · intro h
    obtain ⟨hrun, hfinal⟩ := h
    obtain ⟨forest, hvalid, hroots, hfringe, hsize⟩ := exists_forest_of_run hrun hfinal
    obtain ⟨tree, rest, rfl, hroot, hrest⟩ := List.map_eq_cons_iff.mp hroots
    obtain rfl := List.map_eq_nil_iff.mp hrest
    exact ⟨tree, hvalid tree (by simp), hroot, by simpa using hfringe, hsize⟩
  · intro h
    obtain ⟨tree, hvalid, rfl, rfl, rfl⟩ := h
    have hrun := hvalid.run_leftmost [] [] (Grammar.complete_nil g)
    rw [List.append_nil] at hrun
    exact ⟨hrun.mono rewrites_of_stepsTo_leftmost, hvalid.complete_fringe⟩

/-- **Leftmost runs are trees**, with as many steps as the tree has productions. -/
theorem run_leftmost_iff_tree {n : Nat} {s : Symbol} {final : Form} :
    (Run (g.StepsTo .leftmost) n [s] final ∧ g.complete final = true) ↔
      ∃ tree : Tree, tree.ValidFor g ∧ tree.root = s ∧ tree.fringe = final ∧ tree.size = n := by
  apply Iff.intro
  · intro h
    obtain ⟨hrun, hfinal⟩ := h
    exact run_rewrites_iff_tree.mp ⟨hrun.mono rewrites_of_stepsTo_leftmost, hfinal⟩
  · intro h
    obtain ⟨tree, hvalid, rfl, rfl, rfl⟩ := h
    have hrun := hvalid.run_leftmost [] [] (Grammar.complete_nil g)
    rw [List.append_nil] at hrun
    exact ⟨hrun, hvalid.complete_fringe⟩

@[simp] theorem complete_map_terminal (w : Sentence) : g.complete (w.map Symbol.terminal) = true := by
  induction w with
  | nil => exact Grammar.complete_nil g
  | cons token rest ih => exact Grammar.complete_cons.mpr ⟨rfl, ih⟩

theorem derives_iff_tree {name : String} {w : Sentence} :
    g.Derives name w ↔ ∃ tree : Tree, tree.ValidFor g ∧ tree.root = .nonterminal name ∧
      tree.fringe = w.map Symbol.terminal := by
  apply Iff.intro
  · intro h
    obtain ⟨n, hrun⟩ := h
    obtain ⟨tree, hvalid, hroot, hfringe, -⟩ :=
      run_rewrites_iff_tree.mp ⟨hrun, complete_map_terminal w⟩
    exact ⟨tree, hvalid, hroot, hfringe⟩
  · intro h
    obtain ⟨tree, hvalid, hroot, hfringe⟩ := h
    exact ⟨tree.size, (run_rewrites_iff_tree.mpr ⟨tree, hvalid, hroot, hfringe, rfl⟩).1⟩

end Chomsky
