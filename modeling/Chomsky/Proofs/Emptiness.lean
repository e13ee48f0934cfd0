import Mathlib.Order.Monotone.Basic
import Chomsky.Proofs.Agreement
import Chomsky.Proofs.Derivation.Sampling

/-!
# When nothing is derived

A defined name may derive nothing at all, because its derivations never end. How deep must one look
before giving up? As deep as there are defined names, and no deeper: with each level more either
another name derives something for the first time, or no name ever will.

* **`Grammar.Productive`**: some derivation tree over the name has at most so many levels.
* **`Productive.of_stalled`**: if one level more makes no further name productive, no tree does. The
  subtrees of a pair are replaced by lower ones, and the pair over them has one level more.
* **`Tree.ValidFor.productive`**: a name that derives anything has a tree of no more levels than there
  are defined names.
* **`nothing_derived_of_sentences_eq_empty`**: so a search of that depth decides, for either kind of
  search, for the chart and for random sentences, that there is nothing to find.
-/

namespace Chomsky

namespace Grammar

variable {g : Grammar} {m n : Nat} {name start : String}

/-- Some tree over the name has at most so many levels. -/
def Productive (g : Grammar) (levels : Nat) (name : String) : Prop :=
  ∃ tree : Tree, tree.ValidFor g ∧ tree.root = .nonterminal name ∧ tree.height ≤ levels

theorem Productive.mono (h : g.Productive m name) (hle : m ≤ n) : g.Productive n name := by
  obtain ⟨tree, hvalid, hroot, hheight⟩ := h
  exact ⟨tree, hvalid, hroot, Nat.le_trans hheight hle⟩

theorem productive_of_undefined (hname : g.defines name = false) : g.Productive m name := by
  have hnone : g.productions? name = none := by simpa [defines] using hname
  exact ⟨.leaf (.nonterminal name), .leaf hnone, rfl, Nat.zero_le m⟩

theorem sentences_parallel_ne_empty_iff :
    g.sentences name m .parallel ≠ ∅ ↔ g.Productive m name := by
  rw [ne_eq, Std.ExtTreeSet.eq_empty_iff_forall_not_mem]
  apply Iff.intro
  · intro h
    obtain ⟨w, hw⟩ := Classical.not_forall.mp h
    obtain ⟨tree, hvalid, hroot, -, hheight⟩ :=
      mem_sentences_parallel_iff_tree.mp (Classical.not_not.mp hw)
    exact ⟨tree, hvalid, hroot, hheight⟩
  · intro h hnone
    obtain ⟨tree, hvalid, hroot, hheight⟩ := h
    exact hnone _ (mem_sentences_parallel_iff_tree.mpr ⟨tree, hvalid, hroot, rfl, hheight⟩)

/-! ## One level more

Trees are lowered from the leaves up. Where one level more makes no name productive, a tree over two
lowered subtrees can be lowered once again. -/

theorem Productive.of_stalled (hstalled : ∀ other, g.Productive (m + 1) other → g.Productive m other)
    {tree : Tree} (h : tree.ValidFor g) (hroot : tree.root = .nonterminal name) :
    g.Productive m name := by
  induction h generalizing name with
  | @leaf s hstop => exact ⟨.leaf s, .leaf hstop, hroot, Nat.zero_le m⟩
  | @unary _ token hrule =>
    exact hstalled name ⟨_, .unary hrule, hroot, Nat.succ_le_succ (Nat.zero_le m)⟩
  | @binary other b c left right hrule hb hc _ _ ihl ihr =>
    obtain ⟨lower, hlower, hb', hlowerHeight⟩ := ihl hb
    obtain ⟨lower', hlower', hc', hlowerHeight'⟩ := ihr hc
    refine hstalled name ⟨.binary other lower lower', .binary hrule hb' hc' hlower hlower', hroot, ?_⟩
    show max lower.height lower'.height + 1 ≤ m + 1
    omega

/-! ## Counting the productive names

The defined names that are productive within a depth are some of the defined names, and more of them
within a larger depth. So their number stands still before it exceeds the number of all, and where it
stands still for one level it does so for ever. -/

/-- The defined names from which a sentence is found within a depth. -/
def productiveNames (g : Grammar) (depth : Nat) : List String :=
  g.names.filter fun name => !(g.sentences name depth .parallel).isEmpty

theorem productiveNames_test_iff :
    (!(g.sentences name m .parallel).isEmpty) = true ↔ g.Productive m name := by
  rw [Bool.not_eq_true', ← Bool.not_eq_true, Std.ExtTreeSet.isEmpty_iff]
  exact sentences_parallel_ne_empty_iff

theorem mem_productiveNames :
    name ∈ g.productiveNames m ↔ g.defines name = true ∧ g.Productive m name := by
  rw [productiveNames, List.mem_filter, mem_names, productiveNames_test_iff]

theorem productiveNames_sublist (h : ∀ name, g.Productive m name → g.Productive n name) :
    (g.productiveNames m).Sublist (g.productiveNames n) := by
  refine List.monotone_filter_right _ fun name hname => ?_
  exact productiveNames_test_iff.mpr (h name (productiveNames_test_iff.mp hname))

theorem productive_of_length_eq
    (h : (g.productiveNames m).length = (g.productiveNames (m + 1)).length)
    (hname : g.Productive (m + 1) name) : g.Productive m name := by
  have hsame : g.productiveNames m = g.productiveNames (m + 1) :=
    (productiveNames_sublist fun _ hother => hother.mono (Nat.le_succ m)).eq_of_length h
  cases hdefined : g.defines name with
  | false => exact productive_of_undefined hdefined
  | true =>
    have hmem : name ∈ g.productiveNames m := by
      rw [hsame]
      exact mem_productiveNames.mpr ⟨hdefined, hname⟩
    exact (mem_productiveNames.mp hmem).2

theorem monotone_length_productiveNames (g : Grammar) :
    Monotone fun depth => (g.productiveNames depth).length := by
  intro m n hle
  exact (productiveNames_sublist fun _ hother => hother.mono hle).length_le

/-- Once their number stands still, the productive names are all there ever are. -/
theorem length_productiveNames_stable
    (h : (g.productiveNames m).length = (g.productiveNames (m + 1)).length) :
    (g.productiveNames (m + 1)).length = (g.productiveNames (m + 2)).length := by
  apply Nat.le_antisymm (monotone_length_productiveNames g (Nat.le_succ (m + 1)))
  refine (productiveNames_sublist fun name hname => ?_).length_le
  obtain ⟨tree, hvalid, hroot, -⟩ := hname
  have hlow : g.Productive m name :=
    Productive.of_stalled (fun _ hother => productive_of_length_eq h hother) hvalid hroot
  exact hlow.mono (Nat.le_succ m)

end Grammar

/-- **As many levels as defined names.** A name that derives anything has a tree of that height. -/
theorem Tree.ValidFor.productive {g : Grammar} {tree : Tree} {name : String} (h : tree.ValidFor g)
    (hroot : tree.root = .nonterminal name) : g.Productive g.names.length name := by
  have hbound : ∀ depth, (g.productiveNames depth).length ≤ g.names.length :=
    fun depth => List.length_filter_le _ _
  have hstill : (g.productiveNames (g.names.length + 1)).length =
      (g.productiveNames g.names.length).length :=
    Nat.stabilises_of_monotone (Grammar.monotone_length_productiveNames g) hbound
      (fun _ => Grammar.length_productiveNames_stable) (Nat.le_succ _)
  exact Grammar.Productive.of_stalled
    (fun _ hother => Grammar.productive_of_length_eq hstill.symm hother) h hroot

/-- **A depth that decides.** If nothing is found from a name within as many parallel steps as names are
defined, nothing is found from it within any bound, no sentence is accepted from it, and no source
draws a sentence of it within any depth. -/
theorem nothing_derived_of_sentences_eq_empty (g : Grammar) (start : String)
    (h : g.sentences start g.names.length .parallel = ∅) :
    (∀ bound e, g.sentences start bound e = ∅) ∧
    (∀ w, (Recogniser.ofGrammar g start).accepts w = false) ∧
    (∀ (σ : Type) (chooser : Random.Chooser σ) (depth : Nat) (state : σ),
      (g.sample chooser depth start state).1 = none) := by
  have hnone : ∀ tree : Tree, tree.ValidFor g → tree.root ≠ .nonterminal start := by
    intro tree hvalid hroot
    exact Grammar.sentences_parallel_ne_empty_iff.mpr (hvalid.productive hroot) h
  -- all three find the leaves of trees
  refine ⟨fun bound e => ?_, fun w => ?_, fun σ chooser depth state => ?_⟩
  · rw [Std.ExtTreeSet.eq_empty_iff_forall_not_mem]
    intro w hw
    obtain ⟨tree, hvalid, hroot, -⟩ := Grammar.mem_sentences_iff_tree.mp hw
    exact hnone tree hvalid hroot
  · rw [Bool.eq_false_iff]
    intro haccepts
    obtain ⟨tree, hvalid, hroot, -⟩ := Recogniser.accepts_iff_tree.mp haccepts
    exact hnone tree hvalid hroot
  · rw [Option.eq_none_iff_forall_ne_some]
    intro w hw
    obtain ⟨tree, hvalid, hroot, -⟩ :=
      Grammar.mem_sentences_iff_tree.mp (Grammar.mem_sentences_of_sample hw)
    exact hnone tree hvalid hroot

/-- The only rule of `S` asks for another `S` first. -/
def endless : Grammar :=
  .ofRules [⟨"S", .binary "S" "A"⟩, ⟨"A", .unary "a"⟩]

/-- Two names are defined, and down to the second level nothing is found; so no number of steps, no
chart and no source finds anything. -/
theorem nothing_derived_of_endless :
    endless.sentences "S" endless.names.length .parallel = ∅ ∧
      endless.sentences "S" 1000 .leftmost = ∅ ∧
      (Recogniser.ofGrammar endless "S").accepts ["a", "a"] = false ∧
      (endless.sample .scripted 1000 "S" [0, 0, 0]).1 = none := by
  have hnone : endless.sentences "S" endless.names.length .parallel = ∅ := by decide +kernel
  obtain ⟨hsearch, hchart, hsample⟩ := nothing_derived_of_sentences_eq_empty endless "S" hnone
  exact ⟨hnone, hsearch 1000 .leftmost, hchart ["a", "a"], hsample _ .scripted 1000 [0, 0, 0]⟩

/-- One level less does not decide: two names are defined here, and the sentence of `S` has two. -/
example : (Grammar.ofRules [⟨"S", .binary "A" "A"⟩, ⟨"A", .unary "a"⟩]).sentences "S" 1 .parallel = ∅ ∧
    (Grammar.ofRules [⟨"S", .binary "A" "A"⟩, ⟨"A", .unary "a"⟩]).sentences "S" 2 .parallel ≠ ∅ := by
  decide +kernel

end Chomsky
