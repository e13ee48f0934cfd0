import Chomsky.CommandLine.Run
import Chomsky.Proofs.Derivation.Sampling

/-!
# What is printed at random

A request for random sentences prints sentences of the grammar that it read, and the seed decides
only which ones: **`Sample.run_eq`** says what such a run comes to, on any host, so that whatever
holds of samples from every source holds of what is printed.

**`sample_exactly_within_depth`** puts together what holds of the sentences that are drawn, of the
number of choices, and of the printed lines.
-/

namespace Chomsky.CommandLine

open Chomsky.Random

/-- What is printed for a list of sentences. -/
def sentenceLines (separator : String) (sentences : List Sentence) : String :=
  String.join (sentences.map fun sentence => joinWith separator sentence ++ "\n")

variable {S : Type} {host : Host (StateM S)} {s : S}

/-- Once the grammar is read, a run prints the samples that some seed gives. -/
theorem Sample.run_eq (options : Sample) {g : Grammar}
    (hload : ((host.loadGrammar options.grammar options.convention).run s).1 = .ok g) :
    ∃ seed, ((options.run host).run s).1 = .succeed (sentenceLines options.separator
      (g.samples Words.chooser options.maxDepth options.start attempts options.amount
        (.ofSeed seed)).1) := by
  rcases hrun : (host.loadGrammar options.grammar options.convention).run s with ⟨loaded, next⟩
  obtain rfl : loaded = .ok g := by
    rw [hrun] at hload
    exact hload
  unfold Sample.run
  rw [StateT.run_bind, hrun]
  cases options.seed with
  | some seed => exact ⟨UInt64.ofNat seed, rfl⟩
  | none => exact ⟨(host.freshSeed.run next).1, rfl⟩

/-- The lines of a request are sentences within its depth. -/
theorem exists_sentences_of_run {args : List String} {options : Sample} {g : Grammar}
    (hargs : Command.ofArguments args = .ok (.sample options))
    (hload : ((host.loadGrammar options.grammar options.convention).run s).1 = .ok g) :
    ∃ sentences, ((run host args).run s).1.output = sentenceLines options.separator sentences ∧
      ∀ w ∈ sentences, w ∈ g.sentences options.start options.maxDepth .parallel := by
  obtain ⟨seed, hrun⟩ := options.run_eq hload
  have hcommand : run host args = options.run host := by
    unfold run
    rw [hargs]
    rfl
  refine ⟨(g.samples Words.chooser options.maxDepth options.start attempts options.amount
    (.ofSeed seed)).1, ?_, fun w hw => Grammar.mem_sentences_of_mem_samples hw⟩
  rw [hcommand, hrun]
  rfl

/-- **Random sentences are the sentences within the depth.** A source, whatever it is, draws a
sentence only if the parallel search within the depth finds it, and each of these is drawn from some
list of choices. A run takes at most `2 ^ depth - 1` draws; if it succeeds, its draws are those of a
derivation tree, one for each production. A request for random sentences prints such sentences, and
nothing at all if there are none. -/
theorem sample_exactly_within_depth (g : Grammar) :
    (∀ (start : String) (depth : Nat),
      (∀ (σ : Type) (chooser : Chooser σ) (state : σ) (w : Sentence),
        (g.sample chooser depth start state).1 = some w → w ∈ g.sentences start depth .parallel) ∧
      (∀ w ∈ g.sentences start depth .parallel,
        ∃ script, (g.sample .scripted depth start script).1 = some w) ∧
      (∀ (σ : Type) (chooser : Chooser σ) (state : σ), ∃ draws,
        g.sample chooser.recorded depth start (state, []) =
          ((g.sample chooser depth start state).1, (g.sample chooser depth start state).2, draws) ∧
        draws.length ≤ 2 ^ depth - 1 ∧
        ∀ w, (g.sample chooser depth start state).1 = some w → ∃ tree : Tree, tree.ValidFor g ∧
          tree.root = .nonterminal start ∧ tree.fringe.sentence = w ∧ tree.height ≤ depth ∧
            List.Forall₂ g.Selects draws tree.rules ∧ draws.length = tree.size)) ∧
    (∀ (S : Type) (host : Host (StateM S)) (s : S) (args : List String) (options : Sample),
      Command.ofArguments args = .ok (.sample options) →
      ((host.loadGrammar options.grammar options.convention).run s).1 = .ok g →
      (∃ sentences, ((run host args).run s).1.output = sentenceLines options.separator sentences ∧
        ∀ w ∈ sentences, w ∈ g.sentences options.start options.maxDepth .parallel) ∧
      (g.sentences options.start options.maxDepth .parallel = ∅ →
        ((run host args).run s).1.output = "")) := by
  apply And.intro
  · intro start depth
    refine ⟨?_, ?_, ?_⟩
    · intro σ chooser state w h
      exact Grammar.mem_sentences_of_sample h
    · intro w h
      exact Grammar.exists_script_of_mem_sentences h
    · intro σ chooser state
      exact Grammar.exists_draws_of_sample chooser g depth start state
  · intro S host s args options hargs hload
    obtain ⟨sentences, houtput, hsentences⟩ := exists_sentences_of_run hargs hload
    refine ⟨⟨sentences, houtput, hsentences⟩, fun hempty => ?_⟩
    obtain rfl : sentences = [] := by
      apply List.eq_nil_iff_forall_not_mem.mpr
      intro w hw
      have hmem := hsentences w hw
      rw [hempty] at hmem
      exact absurd hmem Std.ExtTreeSet.not_mem_empty
    exact houtput

/-- A host on which every path leads to the rules of `balanced`. -/
def balancedHost : Host (StateM Unit) where
  readFile _ := pure (.ok "S -> AB\nS -> AC\nC -> SB\nA -> a\nB -> b\n".toUTF8)
  writeFile _ _ := pure (.ok ())
  readInput := pure .empty
  freshSeed := pure 0

/-- Seven choices draw `a a b b`; within one level there is nothing to draw, and nothing is
printed. -/
theorem sample_balanced_within_depth :
    (balanced.sample .scripted 4 "S" [1, 0, 0, 0, 0, 0, 0]).1 = some ["a", "a", "b", "b"] ∧
      ["a", "a", "b", "b"] ∈ balanced.sentences "S" 4 .parallel ∧
      (∃ script, (balanced.sample .scripted 4 "S" script).1 = some ["a", "a", "b", "b"]) ∧
      (∃ (draws : List Draw) (tree : Tree), draws.length ≤ 2 ^ 4 - 1 ∧ tree.ValidFor balanced ∧
        tree.fringe.sentence = ["a", "a", "b", "b"] ∧ draws.length = tree.size) ∧
      ((run balancedHost ["sample", "balanced.cnf", "--max-depth", "1"]).run ()).1.output = "" := by
  obtain ⟨hdraws, hprinted⟩ := sample_exactly_within_depth balanced
  obtain ⟨hsound, hcomplete, hrecorded⟩ := hdraws "S" 4
  have hdrawn : (balanced.sample .scripted 4 "S" [1, 0, 0, 0, 0, 0, 0]).1 =
      some ["a", "a", "b", "b"] := by decide +kernel
  have hmem := hsound (List Nat) .scripted [1, 0, 0, 0, 0, 0, 0] _ hdrawn
  obtain ⟨draws, -, hbound, htree⟩ :=
    hrecorded (List Nat) .scripted [1, 0, 0, 0, 0, 0, 0]
  obtain ⟨tree, hvalid, -, hsentence, -, -, hlength⟩ := htree _ hdrawn
  have hempty : balanced.sentences "S" 1 .parallel = ∅ := by decide +kernel
  have hargs : Command.ofArguments ["sample", "balanced.cnf", "--max-depth", "1"] =
      .ok (.sample ⟨"balanced.cnf", "S", 1, 1, none, " ", .uppercase⟩) := rfl
  have hload : ((balancedHost.loadGrammar "balanced.cnf" .uppercase).run ()).1 = .ok balanced := rfl
  have hnothing := (hprinted Unit _ () _ _ hargs hload).2 hempty
  exact ⟨hdrawn, hmem, hcomplete _ hmem, ⟨draws, tree, hbound, hvalid, hsentence, hlength⟩,
    hnothing⟩

end Chomsky.CommandLine
