import Chomsky.Proofs.Agreement

/-!
# Maps that keep rules

A map of names turns a rule into a rule: it takes the name on the left and the names on the right to
their images and leaves tokens alone. A map under which every rule of one grammar becomes a rule of
another carries over everything that the first grammar derives, and it may send two names to one, or
a name to the spelling of a token:

* **`Tree.ValidFor.rename`**: a tree with nothing but tokens at its leaves stays valid. The leaves
  matter: a name that one grammar leaves undefined may have rules in the other, and then a tree may
  not stop there.
* **`Chart.mem_members_of_mapsInto`**: the names in a cell of the chart have their images in the same
  cell.
* **`Grammar.mem_sentences_of_mapsInto`**: what is found within a bound is found within it again,
  since the tree keeps its shape.
-/

namespace Chomsky

/-! ## Renaming -/

def Symbol.rename (f : String → String) : Symbol → Symbol
  | terminal text => .terminal text
  | nonterminal name => .nonterminal (f name)

def Production.rename (f : String → String) : Production → Production
  | binary l r => .binary (f l) (f r)
  | unary token => .unary token

def Rule.rename (f : String → String) (rule : Rule) : Rule :=
  ⟨f rule.left, rule.right.rename f⟩

/-- The same tree over the images of its names. -/
def Tree.rename (f : String → String) : Tree → Tree
  | leaf s => .leaf (s.rename f)
  | unary name token => .unary (f name) token
  | binary name left right => .binary (f name) (left.rename f) (right.rename f)

section Rename

variable {f : String → String}

@[simp] theorem Production.names_rename (p : Production) : (p.rename f).names = p.names.map f := by
  cases p <;> rfl

@[simp] theorem Rule.right_rename (rule : Rule) : (rule.rename f).right = rule.right.rename f := rfl

@[simp] theorem Rule.rename_id (rule : Rule) : rule.rename id = rule := by
  obtain ⟨name, p⟩ := rule
  cases p <;> rfl

/-- A map that takes the images of a rule's names back takes the image of the rule back. -/
theorem Rule.rename_rename {back : String → String} {rule : Rule}
    (hleft : back (f rule.left) = rule.left)
    (hright : ∀ name ∈ rule.right.names, back (f name) = name) :
    (rule.rename f).rename back = rule := by
  obtain ⟨name, p⟩ := rule
  have hname : back (f name) = name := hleft
  cases p with
  | unary token =>
    show Rule.mk (back (f name)) (.unary token) = ⟨name, .unary token⟩
    rw [hname]
  | binary l r =>
    have hl : back (f l) = l := hright l (by simp)
    have hr : back (f r) = r := hright r (by simp)
    show Rule.mk (back (f name)) (.binary (back (f l)) (back (f r))) = ⟨name, .binary l r⟩
    rw [hname, hl, hr]

namespace Tree

variable {tree : Tree}

@[simp] theorem root_rename (tree : Tree) : (tree.rename f).root = tree.root.rename f := by
  cases tree <;> rfl

theorem root_rename_of_eq {name : String} (h : tree.root = .nonterminal name) :
    (tree.rename f).root = .nonterminal (f name) := by
  rw [root_rename, h]
  rfl

@[simp] theorem fringe_rename (tree : Tree) : (tree.rename f).fringe = tree.fringe.map (Symbol.rename f) := by
  induction tree with
  | leaf s => rfl
  | unary name token => rfl
  | binary name left right ihl ihr => rw [rename, fringe, fringe, ihl, ihr, List.map_append]

@[simp] theorem size_rename (tree : Tree) : (tree.rename f).size = tree.size := by
  induction tree with
  | leaf s => rfl
  | unary name token => rfl
  | binary name left right ihl ihr => rw [rename, size, size, ihl, ihr]

@[simp] theorem height_rename (tree : Tree) : (tree.rename f).height = tree.height := by
  induction tree with
  | leaf s => rfl
  | unary name token => rfl
  | binary name left right ihl ihr => rw [rename, height, height, ihl, ihr]

theorem fringe_rename_of_terminals {w : Sentence} (hw : tree.fringe = w.map Symbol.terminal) :
    (tree.rename f).fringe = w.map Symbol.terminal := by
  rw [fringe_rename, hw, List.map_map]
  rfl

end Tree

@[simp] theorem Expansion.cost_rename (e : Expansion) (tree : Tree) : e.cost (tree.rename f) = e.cost tree := by
  cases e with
  | leftmost => exact tree.size_rename
  | parallel => exact tree.height_rename

end Rename

/-! ## Derivations are kept -/

/-- Under the map, every rule of the first grammar is a rule of the second. -/
def Grammar.MapsInto (f : String → String) (g g' : Grammar) : Prop :=
  ∀ rule ∈ g.rules, rule.rename f ∈ g'.rules

variable {f : String → String} {g g' : Grammar} {name start : String} {w : Sentence}

/-- **Trees over tokens are kept.** Induction on the tree. -/
theorem Tree.ValidFor.rename {tree : Tree} (h : tree.ValidFor g) (hmap : Grammar.MapsInto f g g')
    (hw : tree.fringe = w.map Symbol.terminal) : (tree.rename f).ValidFor g' := by
  induction h generalizing w with
  | @leaf s hstop =>
    cases s with
    | terminal token => exact .leaf rfl
    | nonterminal name => exact absurd hw (Tree.singleton_nonterminal_ne_terminals name w)
  | unary hrule => exact .unary (hmap _ hrule)
  | @binary name b c left right hrule hb hc hleft hright ihl ihr =>
    obtain ⟨u, v, -, hu, hv⟩ := Tree.exists_of_append_eq_terminals hw
    exact .binary (hmap _ hrule) (Tree.root_rename_of_eq hb) (Tree.root_rename_of_eq hc) (ihl hu)
      (ihr hv)

/-- **Cells are kept.** A span outside the sentence has no cell, and then there is nothing to keep. -/
theorem Chart.mem_members_of_mapsInto {span : Span} (hmap : Grammar.MapsInto f g g')
    (hname : name ∈ (ofTokens (.ofGrammar g) w).members span) :
    f name ∈ (ofTokens (.ofGrammar g') w).members span := by
  obtain ⟨cell, hcell, -⟩ := mem_members.mp hname
  obtain ⟨hpos, hbound⟩ := bounds_of_cell? hcell
  obtain ⟨tree, hvalid, hroot, hfringe⟩ := exists_tree_of_mem_members hpos hbound hname
  exact mem_members_of_tree hbound (hvalid.rename hmap hfringe) (Tree.root_rename_of_eq hroot)
    (Tree.fringe_rename_of_terminals hfringe)

theorem Recogniser.accepts_of_mapsInto (hmap : Grammar.MapsInto f g g')
    (h : (ofGrammar g start).accepts w = true) : (ofGrammar g' (f start)).accepts w = true := by
  rw [accepts_iff_mem_members] at h ⊢
  exact Chart.mem_members_of_mapsInto hmap h

/-- **Sentences are kept, with their bounds.** Without undefined names in the first grammar, there are
only tokens at the leaves. -/
theorem Grammar.mem_sentences_of_mapsInto {bound : Nat} {e : Expansion}
    (hmap : Grammar.MapsInto f g g') (hdefined : g.undefinedNames = ∅)
    (hstart : g.defines start = true) (h : w ∈ g.sentences start bound e) :
    w ∈ g'.sentences (f start) bound e := by
  obtain ⟨tree, hvalid, hroot, rfl, hcost⟩ := mem_sentences_iff_tree.mp h
  obtain ⟨u, hu⟩ := Tree.exists_fringe_eq_terminals hdefined hvalid hroot hstart
  refine mem_sentences_iff_tree.mpr
    ⟨tree.rename f, hvalid.rename hmap hu, Tree.root_rename_of_eq hroot, ?_, ?_⟩
  · rw [Tree.fringe_rename_of_terminals hu, hu]
  · rw [Expansion.cost_rename]
    exact hcost

end Chomsky
