import Chomsky.Derivation.Form
import Chomsky.Grammar.Lemmas

/-!
# Derivation trees

A derivation tree says which production was chosen for which name, and leaves open in which order
the choices were made. At its root stands the symbol that it derives, and at its leaves the form
that it derives (`Tree.fringe`). Its inner nodes count the productions that it uses (`Tree.size`),
and those on its longest path the levels that they make (`Tree.height`).

* **`Tree.ValidFor`**: every inner node is a rule of the grammar, and no symbol at a leaf could have
  been expanded. A leaf below an inner node is therefore a token that a unary production wrote, or
  an undefined name that stays as it is spelled.
* **`Tree.size_add_one_of_fringe`**: a tree whose leaves are all tokens uses one production less
  than twice their number, whatever its shape.
* **`Tree.size_add_one_le`** and **`Tree.height_le`**: no tree with that number of leaves is larger,
  and none is higher than it has leaves.
* **`Tree.height_le_size`** and **`Tree.length_fringe_le`**: no tree has more levels than productions,
  and none has more leaves than one more than those.
* **`Tree.exists_fringe_eq_terminals`**: in a grammar that leaves no name undefined, the leaves of a
  tree are all tokens.
-/

namespace Chomsky

/-- A choice of productions, starting from one symbol. -/
inductive Tree where
  | leaf (s : Symbol)
  | unary (name token : String)
  | binary (name : String) (left right : Tree)
  deriving DecidableEq, Repr

namespace Tree

/-- The symbol that the tree derives its leaves from. -/
def root : Tree → Symbol
  | leaf s => s
  | unary name _ => .nonterminal name
  | binary name _ _ => .nonterminal name

/-- The form at the leaves, from left to right. -/
@[simp] def fringe : Tree → Form
  | leaf s => [s]
  | unary _ token => [.terminal token]
  | binary _ left right => left.fringe ++ right.fringe

/-- The number of productions that the tree uses. -/
@[simp] def size : Tree → Nat
  | leaf _ => 0
  | unary _ _ => 1
  | binary _ left right => left.size + right.size + 1

/-- The number of productions on the longest path from the root to a leaf. -/
@[simp] def height : Tree → Nat
  | leaf _ => 0
  | unary _ _ => 1
  | binary _ left right => max left.height right.height + 1

/-- The trees over the symbols that the production at the root wrote. A leaf stays as it is. -/
def children : Tree → List Tree
  | leaf s => [leaf s]
  | unary _ token => [leaf (.terminal token)]
  | binary _ left right => [left, right]

/-- The tree uses rules of the grammar only, and stops only where nothing can be expanded. -/
inductive ValidFor (g : Grammar) : Tree → Prop where
  | leaf {s : Symbol} (hstop : g.options? s = none) : ValidFor g (.leaf s)
  | unary {name token : String} (hrule : ⟨name, .unary token⟩ ∈ g.rules) :
      ValidFor g (.unary name token)
  | binary {name b c : String} {left right : Tree} (hrule : ⟨name, .binary b c⟩ ∈ g.rules)
      (hb : left.root = .nonterminal b) (hc : right.root = .nonterminal c)
      (hleft : ValidFor g left) (hright : ValidFor g right) :
      ValidFor g (.binary name left right)

/-! ## The leaves

A tree has a leaf at least, no leaf of a valid tree can be expanded, and below a terminal there is
nothing but that terminal. -/

@[simp] theorem fringe_ne_nil (tree : Tree) : tree.fringe ≠ [] := by
  induction tree with
  | leaf s => exact List.cons_ne_nil s []
  | unary name token => exact List.cons_ne_nil _ []
  | binary name left right ihl ihr =>
    intro h
    exact ihl (List.append_eq_nil_iff.mp h).1

@[simp] theorem fringe_children (tree : Tree) : tree.children.flatMap fringe = tree.fringe := by
  cases tree <;> simp [children]

variable {g : Grammar} {tree : Tree}

theorem ValidFor.complete_fringe (h : tree.ValidFor g) : g.complete tree.fringe = true := by
  induction h with
  | leaf hstop => exact Grammar.complete_cons.mpr ⟨hstop, Grammar.complete_nil g⟩
  | unary hrule => exact Grammar.complete_cons.mpr ⟨rfl, Grammar.complete_nil g⟩
  | binary _ _ _ _ _ ihl ihr => exact Grammar.complete_append.mpr ⟨ihl, ihr⟩

theorem eq_leaf_of_root_terminal {token : String} (h : tree.root = .terminal token) :
    tree = .leaf (.terminal token) := by
  cases tree with
  | leaf s => rw [show s = .terminal token from h]
  | unary name t => exact absurd h (by nofun)
  | binary name left right => exact absurd h (by nofun)

/-- A token below a name was written by a rule. -/
theorem ValidFor.mem_terminals_of_mem_fringe {name token : String} (h : tree.ValidFor g)
    (hroot : tree.root = .nonterminal name) (htoken : .terminal token ∈ tree.fringe) :
    token ∈ g.terminals := by
  induction h generalizing name with
  | @leaf s hstop =>
    have hs : Symbol.terminal token = s := List.mem_singleton.mp htoken
    rw [show s = .nonterminal name from hroot] at hs
    exact absurd hs (by nofun)
  | @unary other written hrule =>
    have hwritten : token = written := Symbol.terminal.inj (List.mem_singleton.mp htoken)
    exact Grammar.mem_terminals.mpr ⟨⟨other, .unary written⟩, hrule, List.mem_singleton.mpr hwritten⟩
  | binary hrule hb hc hleft hright ihl ihr =>
    rcases List.mem_append.mp htoken with hfront | hback
    · exact ihl hb hfront
    · exact ihr hc hback

/-! ## As many leaves, as few productions

A node with two subtrees has at least one leaf in each, so neither the productions nor the levels
can outgrow the leaves. -/

theorem length_fringe_pos (tree : Tree) : 0 < tree.fringe.length :=
  List.length_pos_iff.mpr tree.fringe_ne_nil

theorem size_add_one_le (tree : Tree) : tree.size + 1 ≤ 2 * tree.fringe.length := by
  induction tree with
  | leaf s => simp
  | unary name token => simp
  | binary name left right ihl ihr =>
    simp only [size, fringe, List.length_append]
    omega

theorem height_le (tree : Tree) : tree.height ≤ tree.fringe.length := by
  induction tree with
  | leaf s => simp
  | unary name token => simp
  | binary name left right ihl ihr =>
    have hleft := left.length_fringe_pos
    have hright := right.length_fringe_pos
    simp only [height, fringe, List.length_append]
    omega

/-! ## As many productions, as few levels and leaves

Every level takes a production at least, and every production adds one leaf at most to the one that
there was. -/

theorem height_le_size (tree : Tree) : tree.height ≤ tree.size := by
  induction tree with
  | leaf s => simp
  | unary name token => simp
  | binary name left right ihl ihr =>
    simp only [height, size]
    omega

theorem length_fringe_le (tree : Tree) : tree.fringe.length ≤ tree.size + 1 := by
  induction tree with
  | leaf s => simp
  | unary name token => simp
  | binary name left right ihl ihr =>
    simp only [size, fringe, List.length_append]
    omega

/-! ## Trees that derive tokens only

Each binary node joins two such trees and each unary node writes one token, so such a tree has a
unary node for each token and a binary node for each gap between neighbours. -/

theorem exists_of_append_eq_terminals {x y : Form} {w : Sentence}
    (h : x ++ y = w.map Symbol.terminal) :
    ∃ u v, w = u ++ v ∧ x = u.map Symbol.terminal ∧ y = v.map Symbol.terminal := by
  obtain ⟨u, v, hw, hx, hy⟩ := List.map_eq_append_iff.mp h.symm
  exact ⟨u, v, hw, hx.symm, hy.symm⟩

@[simp] theorem sentence_map_terminal (w : Sentence) : Form.sentence (w.map Symbol.terminal) = w := by
  rw [Form.sentence, List.map_map, show Symbol.text ∘ Symbol.terminal = id from rfl, List.map_id]

theorem singleton_nonterminal_ne_terminals (name : String) (w : Sentence) :
    [Symbol.nonterminal name] ≠ w.map Symbol.terminal := by
  intro h
  cases w with
  | nil => exact absurd h (List.cons_ne_nil _ _)
  | cons token rest => exact absurd (List.cons.inj h).1 (by nofun)

/-- **The size of a tree that derives tokens only.** A sentence of `n` tokens takes `2 * n - 1`
productions, however it is derived. -/
theorem size_add_one_of_fringe {name : String} {w : Sentence} (h : tree.ValidFor g)
    (hroot : tree.root = .nonterminal name) (hw : tree.fringe = w.map Symbol.terminal) :
    tree.size + 1 = 2 * w.length := by
  induction h generalizing name w with
  | @leaf s hstop =>
    rw [show s = .nonterminal name from hroot] at hw
    exact absurd hw (singleton_nonterminal_ne_terminals name w)
  | unary hrule =>
    have hlength : 1 = w.length := by simpa using congrArg List.length hw
    simp only [size]
    omega
  | @binary _ b c left right hrule hb hc hleft hright ihl ihr =>
    -- two subtrees of `2 * u - 1` and `2 * v - 1` productions, and one more at the root
    obtain ⟨u, v, rfl, hu, hv⟩ := exists_of_append_eq_terminals hw
    have hleftSize := ihl hb hu
    have hrightSize := ihr hc hv
    simp only [size, List.length_append]
    omega

/-- **Nothing is left over where no name is undefined.** From a defined name, a valid tree of such
a grammar derives tokens only. -/
theorem exists_fringe_eq_terminals {name : String} (hdefined : g.undefinedNames = ∅)
    (h : tree.ValidFor g) (hroot : tree.root = .nonterminal name) (hname : g.defines name = true) :
    ∃ w : Sentence, tree.fringe = w.map Symbol.terminal := by
  induction h generalizing name with
  | @leaf s hstop =>
    rw [show s = .nonterminal name from hroot] at hstop
    have hnone : g.productions? name = none := hstop
    rw [Grammar.defines, hnone] at hname
    exact absurd hname (by decide)
  | @unary _ token hrule => exact ⟨[token], rfl⟩
  | @binary _ b c left right hrule hb hc hleft hright ihl ihr =>
    have hused := Grammar.undefinedNames_eq_empty_iff.mp hdefined _ hrule
    obtain ⟨u, hu⟩ := ihl hb (hused b (by simp))
    obtain ⟨v, hv⟩ := ihr hc (hused c (by simp))
    exact ⟨u ++ v, by rw [fringe, hu, hv, List.map_append]⟩

end Tree

/-- A grammar of the sentences `a … a b … b` with as many `a` as `b`, for closed examples. -/
def balanced : Grammar := .ofRules [
  ⟨"S", .binary "A" "B"⟩, ⟨"S", .binary "A" "C"⟩, ⟨"C", .binary "S" "B"⟩,
  ⟨"A", .unary "a"⟩, ⟨"B", .unary "b"⟩]

end Chomsky
