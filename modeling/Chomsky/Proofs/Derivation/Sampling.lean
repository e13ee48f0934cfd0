import Mathlib.Algebra.Group.Nat.Defs
import Mathlib.Data.List.Forall2
import Chomsky.Derivation.Sampling
import Chomsky.Proofs.Derivation.Enumeration
import Chomsky.Proofs.Random.Draws

/-!
# What a random sentence makes of its draws

A random derivation asks a source for choices and spends them whether or not it succeeds. What comes
of the draws does not depend on the source that gave them: **`Grammar.Attempt`** says it with no
source in it, and each of its cases is one way for a derivation to go on or to end.

* **`exists_attempt`** and **`sample_eq_of_attempt`**: a run on a source is the attempt on the draws
  that the source gives. So two sources that give the same draws give the same sentence.
* **`Attempt.length_le`**: an attempt takes no more draws than a full binary tree of its depth has
  inner nodes.
* **`Attempt.exists_tree`** and **`Tree.ValidFor.exists_attempt`**: the attempts that succeed are the
  derivation trees within the depth, and the draws select the rules of the tree one after the other.
-/

namespace Chomsky

open Chomsky.Random

namespace Grammar

variable {g : Grammar} {depth : Nat} {name : String} {draw : Draw}

/-! ## One derivation -/

/-- The draw chooses a rule among all those of its name. -/
def Selects (g : Grammar) (draw : Draw) (rule : Rule) : Prop :=
  ∃ ps, g.productions? rule.left = some ps ∧ ps.toList.length = draw.others + 1 ∧
    ps.toList[draw.pick.val]? = some rule.right

/-- What comes of an attempt to derive a sentence within a depth, with these draws. -/
inductive Attempt (g : Grammar) : (depth : Nat) → (name : String) → List Draw → Option Sentence →
    Prop where
  | undefined {depth : Nat} {name : String} (hname : g.productions? name = none) :
      Attempt g depth name [] (some [name])
  | tooDeep {name : String} {ps : Productions} (hname : g.productions? name = some ps) :
      Attempt g 0 name [] none
  | barren {depth : Nat} {name : String} {ps : Productions} (hname : g.productions? name = some ps)
      (hnil : ps.toList = []) : Attempt g (depth + 1) name [] none
  | token {depth : Nat} {name token : String} {draw : Draw}
      (hselects : g.Selects draw ⟨name, .unary token⟩) :
      Attempt g (depth + 1) name [draw] (some [token])
  | frontFails {depth : Nat} {name b c : String} {draw : Draw} {draws : List Draw}
      (hselects : g.Selects draw ⟨name, .binary b c⟩) (hfront : Attempt g depth b draws none) :
      Attempt g (depth + 1) name (draw :: draws) none
  | backFails {depth : Nat} {name b c : String} {draw : Draw} {before after : List Draw}
      {front : Sentence} (hselects : g.Selects draw ⟨name, .binary b c⟩)
      (hfront : Attempt g depth b before (some front)) (hback : Attempt g depth c after none) :
      Attempt g (depth + 1) name (draw :: (before ++ after)) none
  | pair {depth : Nat} {name b c : String} {draw : Draw} {before after : List Draw}
      {front back : Sentence} (hselects : g.Selects draw ⟨name, .binary b c⟩)
      (hfront : Attempt g depth b before (some front))
      (hback : Attempt g depth c after (some back)) :
      Attempt g (depth + 1) name (draw :: (before ++ after)) (some (front ++ back))

/-! ## Runs are attempts

What a run does at one name, said in terms of the draw that it makes there. -/

variable {σ : Type} {chooser : Chooser σ} {state next after : σ}

theorem sample_of_undefined (hname : g.productions? name = none) :
    g.sample chooser depth name state = (some [name], state) := by
  unfold sample
  rw [hname]

theorem sample_zero {ps : Productions} (hname : g.productions? name = some ps) :
    g.sample chooser 0 name state = (none, state) := by
  unfold sample
  rw [hname]

theorem sample_of_barren {ps : Productions} (hname : g.productions? name = some ps)
    (hnil : ps.toList = []) : g.sample chooser (depth + 1) name state = (none, state) := by
  unfold sample
  rw [hname]
  simp only [hnil]

/-- What a run does after it chose a production. -/
def sampleFrom (chooser : Chooser σ) (g : Grammar) (depth : Nat) :
    Production → σ → Option Sentence × σ
  | .unary token, state => (some [token], state)
  | .binary b c, state =>
    match g.sample chooser depth b state with
    | (none, state) => (none, state)
    | (some front, state) =>
      match g.sample chooser depth c state with
      | (none, state) => (none, state)
      | (some back, state) => (some (front ++ back), state)

theorem sample_of_selects {p : Production} (hselects : g.Selects draw ⟨name, p⟩)
    (hdraw : chooser.choose draw.others state = (draw.pick, next)) :
    g.sample chooser (depth + 1) name state = g.sampleFrom chooser depth p next := by
  obtain ⟨ps, hname, hlength, hpick⟩ := hselects
  obtain ⟨others, pick⟩ := draw
  cases hlist : ps.toList with
  | nil => simp [hlist] at hlength
  | cons first rest =>
    obtain rfl : rest.length = others := by simpa [hlist] using hlength
    have hp : (first :: rest)[pick] = p := by
      rw [hlist] at hpick
      obtain ⟨_, hget⟩ := List.getElem?_eq_some_iff.mp hpick
      exact hget
    unfold sample
    rw [show g.productions? name = some ps from hname]
    simp only [hlist, hdraw, hp]
    cases p with
    | unary token => rfl
    | binary b c => rfl

theorem exists_selects {ps : Productions} (chooser : Chooser σ)
    (hname : g.productions? name = some ps) (hne : ps.toList ≠ []) (state : σ) :
    ∃ draw p next, g.Selects draw ⟨name, p⟩ ∧
      chooser.choose draw.others state = (draw.pick, next) := by
  obtain ⟨first, rest, hlist⟩ := List.exists_cons_of_ne_nil hne
  rcases hdraw : chooser.choose rest.length state with ⟨pick, next⟩
  have hpick : (first :: rest)[pick.val]? = some (first :: rest)[pick] :=
    List.getElem?_eq_getElem pick.isLt
  refine ⟨⟨rest.length, pick⟩, (first :: rest)[pick], next, ⟨ps, hname, ?_, ?_⟩, hdraw⟩
  · rw [hlist]
    rfl
  · rw [hlist]
    exact hpick

/-- What follows a choice is an attempt, if runs with one level less are. The right name is derived
only when the left one was. -/
theorem exists_attempt_of_selects {p : Production}
    (hruns : ∀ (name : String) (state : σ), ∃ draws,
      g.Attempt depth name draws (g.sample chooser depth name state).1 ∧
        chooser.Answers state draws (g.sample chooser depth name state).2)
    (hselects : g.Selects draw ⟨name, p⟩)
    (hdraw : chooser.choose draw.others state = (draw.pick, next)) :
    ∃ draws, g.Attempt (depth + 1) name draws (g.sampleFrom chooser depth p next).1 ∧
      chooser.Answers state draws (g.sampleFrom chooser depth p next).2 := by
  cases p with
  | unary token => exact ⟨[draw], .token hselects, .cons hdraw (.nil next)⟩
  | binary b c =>
    obtain ⟨before, hfront, hbefore⟩ := hruns b next
    rcases hb : g.sample chooser depth b next with ⟨front, middle⟩
    rw [hb] at hfront hbefore
    cases front with
    | none =>
      simp only [sampleFrom, hb]
      exact ⟨draw :: before, .frontFails hselects hfront, .cons hdraw hbefore⟩
    | some front =>
      obtain ⟨after, hback, hafter⟩ := hruns c middle
      rcases hc : g.sample chooser depth c middle with ⟨back, last⟩
      rw [hc] at hback hafter
      have hanswers := Chooser.Answers.cons hdraw (hbefore.append hafter)
      cases back with
      | none =>
        simp only [sampleFrom, hb, hc]
        exact ⟨_, .backFails hselects hfront hback, hanswers⟩
      | some back =>
        simp only [sampleFrom, hb, hc]
        exact ⟨_, .pair hselects hfront hback, hanswers⟩

/-- **A run is an attempt.** Induction on the depth. -/
theorem exists_attempt (chooser : Chooser σ) (g : Grammar) (depth : Nat) (name : String)
    (state : σ) :
    ∃ draws, g.Attempt depth name draws (g.sample chooser depth name state).1 ∧
      chooser.Answers state draws (g.sample chooser depth name state).2 := by
  induction depth generalizing name state with
  | zero =>
    cases hname : g.productions? name with
    | none =>
      rw [sample_of_undefined hname]
      exact ⟨[], .undefined hname, .nil state⟩
    | some ps =>
      rw [sample_zero hname]
      exact ⟨[], .tooDeep hname, .nil state⟩
  | succ depth ih =>
    cases hname : g.productions? name with
    | none =>
      rw [sample_of_undefined hname]
      exact ⟨[], .undefined hname, .nil state⟩
    | some ps =>
      by_cases hnil : ps.toList = []
      · rw [sample_of_barren hname hnil]
        exact ⟨[], .barren hname hnil, .nil state⟩
      · obtain ⟨draw, p, next, hselects, hdraw⟩ := exists_selects chooser hname hnil state
        rw [sample_of_selects hselects hdraw]
        exact exists_attempt_of_selects ih hselects hdraw

/-- **An attempt is a run.** On any source that gives its draws. -/
theorem sample_eq_of_attempt {draws : List Draw} {result : Option Sentence}
    (h : g.Attempt depth name draws result) (hanswers : chooser.Answers state draws after) :
    g.sample chooser depth name state = (result, after) := by
  induction h generalizing state after with
  | undefined hname =>
    cases hanswers
    exact sample_of_undefined hname
  | tooDeep hname =>
    cases hanswers
    exact sample_zero hname
  | barren hname hnil =>
    cases hanswers
    exact sample_of_barren hname hnil
  | token hselects =>
    obtain _ | ⟨hdraw, hrest⟩ := hanswers
    cases hrest
    exact sample_of_selects hselects hdraw
  | frontFails hselects _ ih =>
    obtain _ | ⟨hdraw, hrest⟩ := hanswers
    rw [sample_of_selects hselects hdraw]
    simp only [sampleFrom, ih hrest]
  | backFails hselects _ _ ihf ihb =>
    obtain _ | ⟨hdraw, hrest⟩ := hanswers
    obtain ⟨middle, hbefore, hafter⟩ := hrest.exists_of_append
    rw [sample_of_selects hselects hdraw]
    simp only [sampleFrom, ihf hbefore, ihb hafter]
  | pair hselects _ _ ihf ihb =>
    obtain _ | ⟨hdraw, hrest⟩ := hanswers
    obtain ⟨middle, hbefore, hafter⟩ := hrest.exists_of_append
    rw [sample_of_selects hselects hdraw]
    simp only [sampleFrom, ihf hbefore, ihb hafter]

/-- The record of a run shows its draws, and recording them changes nothing else. -/
theorem exists_attempt_recorded (chooser : Chooser σ) (g : Grammar) (depth : Nat) (name : String)
    (state : σ) :
    ∃ draws, g.Attempt depth name draws (g.sample chooser depth name state).1 ∧
      g.sample chooser.recorded depth name (state, []) =
        ((g.sample chooser depth name state).1, (g.sample chooser depth name state).2, draws) := by
  obtain ⟨draws, hattempt, hanswers⟩ := exists_attempt chooser g depth name state
  exact ⟨draws, hattempt, sample_eq_of_attempt hattempt (hanswers.recorded [])⟩

/-! ## The number of draws

One level more is one draw more at the root, and then twice what one level less takes. -/

theorem draws_le_of_succ {before after : Nat} (hbefore : before ≤ 2 ^ depth - 1)
    (hafter : after ≤ 2 ^ depth - 1) : before + after + 1 ≤ 2 ^ (depth + 1) - 1 := by
  have hpos : 0 < 2 ^ depth := Nat.two_pow_pos depth
  rw [Nat.pow_succ]
  omega

theorem Attempt.length_le {draws : List Draw} {result : Option Sentence}
    (h : g.Attempt depth name draws result) : draws.length ≤ 2 ^ depth - 1 := by
  induction h with
  | undefined => exact Nat.zero_le _
  | tooDeep => exact Nat.zero_le _
  | barren => exact Nat.zero_le _
  | token => exact draws_le_of_succ (Nat.zero_le _) (Nat.zero_le _)
  | frontFails _ _ ih => exact draws_le_of_succ ih (Nat.zero_le _)
  | backFails _ _ _ ihf ihb =>
    rw [List.length_cons, List.length_append]
    exact draws_le_of_succ ihf ihb
  | pair _ _ _ ihf ihb =>
    rw [List.length_cons, List.length_append]
    exact draws_le_of_succ ihf ihb

end Grammar

/-! ## Successful attempts are trees -/

/-- The rules that a tree uses, from the root down and from the left to the right. -/
def Tree.rules : Tree → List Rule
  | leaf _ => []
  | unary name token => [⟨name, .unary token⟩]
  | binary name left right =>
    ⟨name, .binary left.root.text right.root.text⟩ :: (left.rules ++ right.rules)

@[simp] theorem Tree.length_rules (tree : Tree) : tree.rules.length = tree.size := by
  induction tree with
  | leaf s => rfl
  | unary name token => rfl
  | binary name left right ihl ihr =>
    rw [rules, List.length_cons, List.length_append, ihl, ihr, size]

variable {g : Grammar} {depth : Nat} {name : String} {w : Sentence}

theorem Grammar.Selects.mem_rules {draw : Draw} {rule : Rule} (h : g.Selects draw rule) :
    rule ∈ g.rules := by
  obtain ⟨ps, hname, -, hpick⟩ := h
  have hmem : rule.right ∈ ps.toList := List.mem_of_getElem? hpick
  exact Grammar.mem_rules.mpr ⟨ps, hname, Std.ExtTreeSet.mem_toList.mp hmem⟩

theorem Grammar.exists_draw_of_mem_rules {rule : Rule} (h : rule ∈ g.rules) :
    ∃ draw, g.Selects draw rule := by
  obtain ⟨ps, hname, hmem⟩ := Grammar.mem_rules.mp h
  obtain ⟨i, hi, hpick⟩ := List.mem_iff_getElem.mp (Std.ExtTreeSet.mem_toList.mpr hmem)
  have hlength : ps.toList.length = ps.toList.length - 1 + 1 := by omega
  refine ⟨⟨ps.toList.length - 1, ⟨i, by omega⟩⟩, ps, hname, hlength, ?_⟩
  rw [List.getElem?_eq_getElem hi, hpick]

/-- **What succeeds follows a tree.** The draws select its rules in order. -/
theorem Grammar.Attempt.exists_tree {draws : List Draw}
    (h : g.Attempt depth name draws (some w)) :
    ∃ tree : Tree, tree.ValidFor g ∧ tree.root = .nonterminal name ∧ tree.fringe.sentence = w ∧
      tree.height ≤ depth ∧ List.Forall₂ g.Selects draws tree.rules := by
  generalize hresult : some w = result at h
  induction h generalizing w with
  | @undefined depth name hname =>
    obtain rfl := Option.some.inj hresult
    exact ⟨.leaf (.nonterminal name), .leaf hname, rfl, rfl, Nat.zero_le _, .nil⟩
  | tooDeep => cases hresult
  | barren => cases hresult
  | @token depth name token draw hselects =>
    obtain rfl := Option.some.inj hresult
    exact ⟨.unary name token, .unary hselects.mem_rules, rfl, rfl, Nat.succ_le_succ (Nat.zero_le _),
      .cons hselects .nil⟩
  | frontFails => cases hresult
  | backFails => cases hresult
  | @pair depth name b c draw before after front back hselects _ _ ihf ihb =>
    obtain rfl := Option.some.inj hresult
    obtain ⟨left, hleft, hb, rfl, hleftHeight, hleftRules⟩ := ihf rfl
    obtain ⟨right, hright, hc, rfl, hrightHeight, hrightRules⟩ := ihb rfl
    refine ⟨.binary name left right, .binary hselects.mem_rules hb hc hleft hright, rfl,
      List.map_append, ?_, ?_⟩
    · show max left.height right.height + 1 ≤ depth + 1
      omega
    · have hroot : g.Selects draw ⟨name, .binary left.root.text right.root.text⟩ := by
        rw [hb, hc]
        exact hselects
      exact .cons hroot (List.rel_append hleftRules hrightRules)

/-- **Every tree within the depth is followed by some attempt.** -/
theorem Tree.ValidFor.exists_attempt {tree : Tree} (h : tree.ValidFor g)
    (hroot : tree.root = .nonterminal name) (hheight : tree.height ≤ depth) :
    ∃ draws, g.Attempt depth name draws (some tree.fringe.sentence) := by
  induction h generalizing name depth with
  | @leaf s hstop =>
    obtain rfl : s = .nonterminal name := hroot
    exact ⟨[], .undefined hstop⟩
  | @unary _ token hrule =>
    obtain rfl := Symbol.nonterminal.inj hroot
    obtain ⟨draw, hselects⟩ := Grammar.exists_draw_of_mem_rules hrule
    obtain ⟨depth, rfl⟩ := Nat.exists_eq_add_one_of_ne_zero (Nat.ne_of_gt hheight)
    exact ⟨[draw], .token hselects⟩
  | @binary _ b c left right hrule hb hc hleft hright ihl ihr =>
    obtain rfl := Symbol.nonterminal.inj hroot
    obtain ⟨draw, hselects⟩ := Grammar.exists_draw_of_mem_rules hrule
    have hlevels : max left.height right.height + 1 ≤ depth := hheight
    obtain ⟨depth, rfl⟩ : ∃ d, depth = d + 1 := ⟨depth - 1, by omega⟩
    obtain ⟨before, hfront⟩ := ihl hb (show left.height ≤ depth by omega)
    obtain ⟨after, hback⟩ := ihr hc (show right.height ≤ depth by omega)
    refine ⟨draw :: (before ++ after), ?_⟩
    rw [Tree.fringe, show (left.fringe ++ right.fringe).sentence =
      left.fringe.sentence ++ right.fringe.sentence from List.map_append]
    exact .pair hselects hfront hback

/-! ## The sentences that are drawn -/

theorem Grammar.mem_sentences_parallel_iff_attempt :
    w ∈ g.sentences name depth .parallel ↔ ∃ draws, g.Attempt depth name draws (some w) := by
  rw [Grammar.mem_sentences_parallel_iff_tree]
  apply Iff.intro
  · intro h
    obtain ⟨tree, hvalid, hroot, rfl, hheight⟩ := h
    exact hvalid.exists_attempt hroot hheight
  · intro h
    obtain ⟨draws, hattempt⟩ := h
    obtain ⟨tree, hvalid, hroot, hw, hheight, -⟩ := hattempt.exists_tree
    exact ⟨tree, hvalid, hroot, hw, hheight⟩

/-- A sentence that some source draws is found by the search. -/
theorem Grammar.mem_sentences_of_sample {σ : Type} {chooser : Chooser σ} {state : σ}
    (h : (g.sample chooser depth name state).1 = some w) : w ∈ g.sentences name depth .parallel := by
  obtain ⟨draws, hattempt, -⟩ := Grammar.exists_attempt chooser g depth name state
  rw [h] at hattempt
  exact Grammar.mem_sentences_parallel_iff_attempt.mpr ⟨draws, hattempt⟩

/-- A sentence that the search finds is drawn from some list of choices. -/
theorem Grammar.exists_script_of_mem_sentences (h : w ∈ g.sentences name depth .parallel) :
    ∃ script, (g.sample .scripted depth name script).1 = some w := by
  obtain ⟨draws, hattempt⟩ := Grammar.mem_sentences_parallel_iff_attempt.mp h
  refine ⟨draws.map fun draw => draw.pick.val, ?_⟩
  rw [Grammar.sample_eq_of_attempt hattempt (Chooser.answers_scripted draws)]

/-- **Every draw of a run is accounted for.** The record of a run is bounded by the depth, and if the
run succeeds it selects the rules of a tree, one draw for each. -/
theorem Grammar.exists_draws_of_sample {σ : Type} (chooser : Chooser σ) (g : Grammar) (depth : Nat)
    (name : String) (state : σ) :
    ∃ draws,
      g.sample chooser.recorded depth name (state, []) =
        ((g.sample chooser depth name state).1, (g.sample chooser depth name state).2, draws) ∧
      draws.length ≤ 2 ^ depth - 1 ∧
      ∀ w, (g.sample chooser depth name state).1 = some w → ∃ tree : Tree, tree.ValidFor g ∧
        tree.root = .nonterminal name ∧ tree.fringe.sentence = w ∧ tree.height ≤ depth ∧
          List.Forall₂ g.Selects draws tree.rules ∧ draws.length = tree.size := by
  obtain ⟨draws, hattempt, hrecord⟩ := Grammar.exists_attempt_recorded chooser g depth name state
  refine ⟨draws, hrecord, hattempt.length_le, fun w hw => ?_⟩
  rw [hw] at hattempt
  obtain ⟨tree, hvalid, hroot, hsentence, hheight, hselects⟩ := hattempt.exists_tree
  have hlength : draws.length = tree.size := by rw [hselects.length_eq, tree.length_rules]
  exact ⟨tree, hvalid, hroot, hsentence, hheight, hselects, hlength⟩

/-! ## Requests

A request repeats attempts until one succeeds, and each of them starts where the source was left. -/

namespace Grammar

variable {σ : Type} {chooser : Chooser σ} {state : σ} {attempts amount : Nat}

theorem mem_sentences_of_sampleWithin
    (h : (g.sampleWithin chooser depth name attempts state).1 = some w) :
    w ∈ g.sentences name depth .parallel := by
  induction attempts generalizing state with
  | zero => cases h
  | succ attempts ih =>
    rcases hrun : g.sample chooser depth name state with ⟨result, next⟩
    cases result with
    | none =>
      rw [sampleWithin, hrun] at h
      exact ih h
    | some sentence =>
      rw [sampleWithin, hrun] at h
      have hsample : (g.sample chooser depth name state).1 = some w := by
        rw [hrun]
        exact h
      exact mem_sentences_of_sample hsample

theorem mem_sentences_of_mem_samplesOnto {found : List Sentence}
    (hfound : ∀ w ∈ found, w ∈ g.sentences name depth .parallel)
    (h : w ∈ (g.samplesOnto chooser depth name attempts amount found state).1) :
    w ∈ g.sentences name depth .parallel := by
  induction amount generalizing found state with
  | zero => exact hfound w h
  | succ amount ih =>
    rcases hrun : g.sampleWithin chooser depth name attempts state with ⟨result, next⟩
    cases result with
    | none =>
      rw [samplesOnto, hrun] at h
      exact ih hfound h
    | some sentence =>
      rw [samplesOnto, hrun] at h
      refine ih (fun u hu => ?_) h
      rcases List.mem_cons.mp hu with rfl | hu
      · have hrequest : (g.sampleWithin chooser depth name attempts state).1 = some u := by rw [hrun]
        exact mem_sentences_of_sampleWithin hrequest
      · exact hfound u hu

theorem mem_sentences_of_mem_samples
    (h : w ∈ (g.samples chooser depth name attempts amount state).1) :
    w ∈ g.sentences name depth .parallel :=
  mem_sentences_of_mem_samplesOnto (fun _ hu => absurd hu List.not_mem_nil) (List.mem_reverse.mp h)

end Grammar

end Chomsky
