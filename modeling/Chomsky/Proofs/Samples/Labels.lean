import Chomsky.Proofs.Complement
import Chomsky.Proofs.Grammar.RoundTrip
import Chomsky.Proofs.Samples.Joining

/-!
# Sample files are labelled right

A recogniser is tested with two files of lines, those that it must accept and those that it must
reject. Between a sentence and its verdict stand the separator that its tokens were joined with and
the words that the recogniser cuts the line into, and a token that holds a blank, or is empty, would
not survive that. No grammar that was read has such a token, so with a separator of blanks nothing
can go wrong:

* **`isWord_of_mem_sentences`**: the tokens of a sentence that is found are tokens of the rules, and
  those of a grammar that was read are words; the tokens of the complement are so by definition.
* **`acceptsText_joinWith`**: a joined line is judged like its sentence.
* **`samples_labelled_of_parse`**: every sentence has a line of its own, the positive lines are
  accepted, and the negative ones are rejected if the search was granted enough steps.
-/

namespace Chomsky

variable {m : Convention} {g : Grammar} {start separator : String} {e : Expansion}
  {steps bound : Nat} {w : Sentence}

/-! ## The tokens of both samples are words -/

theorem mem_terminals_of_mem_sentences (hdefined : g.undefinedNames = ∅)
    (hstart : g.defines start = true) (h : w ∈ g.sentences start steps e) :
    ∀ token ∈ w, token ∈ g.terminals := by
  obtain ⟨tree, hvalid, hroot, hw, -⟩ := Grammar.mem_sentences_iff_tree.mp h
  obtain ⟨u, hu⟩ := Tree.exists_fringe_eq_terminals hdefined hvalid hroot hstart
  have hsame : u = w := by rw [← hw, hu, Tree.sentence_map_terminal]
  intro token htoken
  have hleaf : Symbol.terminal token ∈ tree.fringe := by
    rw [hu, hsame]
    exact List.mem_map_of_mem htoken
  exact hvalid.mem_terminals_of_mem_fringe hroot hleaf

theorem isWord_of_mem_sentences (hwell : g.WellFormed m) (hdefined : g.undefinedNames = ∅)
    (hstart : g.defines start = true) (h : w ∈ g.sentences start steps e) :
    ∀ token ∈ w, Text.IsWord token.toList := fun token htoken =>
  Grammar.isWord_of_mem_terminals hwell
    (mem_terminals_of_mem_sentences hdefined hstart h token htoken)

theorem isWord_of_mem_complement (hwell : g.WellFormed m) {language : Language}
    (h : w ∈ complement language g.terminals bound) : ∀ token ∈ w, Text.IsWord token.toList := by
  have htokens : ∀ token ∈ w, token ∈ g.terminals := (mem_complement.mp h).2.1
  exact fun token htoken => Grammar.isWord_of_mem_terminals hwell (htokens token htoken)

/-! ## Lines and their verdicts -/

/-- Where tokens are words and the separator is blanks, joining can be undone. -/
theorem injOn_joinWith (hne : separator ≠ "")
    (hblank : ∀ c ∈ separator.toList, Text.isBlank c = true) {s : Set Sentence}
    (hs : ∀ w ∈ s, ∀ token ∈ w, Text.IsWord token.toList) : Set.InjOn (joinWith separator) s := by
  have hback : Set.LeftInvOn Recogniser.tokens (joinWith separator) s :=
    fun w hw => Recogniser.tokens_joinWith hne hblank (hs w hw)
  exact hback.injOn

theorem acceptsText_joinWith (r : Recogniser) (hne : separator ≠ "")
    (hblank : ∀ c ∈ separator.toList, Text.isBlank c = true)
    (hw : ∀ token ∈ w, Text.IsWord token.toList) :
    r.acceptsText (joinWith separator w) = r.accepts w := by
  rw [Recogniser.acceptsText, Recogniser.tokens_joinWith hne hblank hw]

/-- The complement holds nothing of the language, so no line of it is struck out. -/
theorem filter_complement (language : Language) (tokens : NameSet) (bound : Nat) :
    (complement language tokens bound).filter (· ∉ language) = complement language tokens bound := by
  apply Std.ExtTreeSet.ext_mem
  intro w
  simp [Std.ExtTreeSet.mem_filter]

/-- **The sample files are faithful and labelled right.** For a grammar that was read, under either
convention, that defines every name it uses, and for a separator of blanks: each file has as many
lines as there are sentences for it, every positive line is accepted, and every negative one is
rejected if the search was granted the steps that the longest sentence of the complement needs. -/
theorem samples_labelled_of_parse {text : String} (hparse : Grammar.parse m text = .ok g)
    (hdefined : g.undefinedNames = ∅) (hstart : g.defines start = true) (steps : Nat)
    (e : Expansion) (bound : Nat) (hne : separator ≠ "")
    (hblank : ∀ c ∈ separator.toList, Text.isBlank c = true) :
    let language := g.sentences start steps e
    let underivable := complement language g.terminals bound
    let samples := Samples.join language underivable separator
    samples.positive.size = language.size ∧
    samples.negative.size = underivable.size ∧
    (∀ line ∈ samples.positive, (Recogniser.ofGrammar g start).acceptsText line = true) ∧
    (e = .leftmost ∧ 2 * bound ≤ steps + 1 ∨ e = .parallel ∧ bound ≤ steps →
      ∀ line ∈ samples.negative, (Recogniser.ofGrammar g start).acceptsText line = false) := by
  intro language underivable samples
  have hwell : g.WellFormed m := Grammar.wellFormed_of_parse hparse
  have hlanguage : ∀ w ∈ language, ∀ token ∈ w, Text.IsWord token.toList :=
    fun w => isWord_of_mem_sentences hwell hdefined hstart
  have hunderivable : ∀ w ∈ underivable, ∀ token ∈ w, Text.IsWord token.toList :=
    fun w => isWord_of_mem_complement hwell
  have hjoin : Set.InjOn (joinWith separator) {w | w ∈ language ∨ w ∈ underivable} :=
    injOn_joinWith hne hblank fun w hw => hw.elim (hlanguage w) (hunderivable w)
  refine ⟨?_, ?_, ?_, ?_⟩
  · exact Samples.size_positive_join (hjoin.mono fun w hw => Or.inl hw)
  · rw [Samples.size_negative_join hjoin, filter_complement]
  · intro line hline
    obtain ⟨w, hw, rfl⟩ := Samples.mem_positive_join.mp hline
    rw [acceptsText_joinWith _ hne hblank (hlanguage w hw)]
    exact Grammar.accepts_of_mem_sentences hdefined hstart hw
  · intro hsteps line hline
    obtain ⟨⟨w, hw, rfl⟩, -⟩ := Samples.mem_negative_join.mp hline
    rw [acceptsText_joinWith _ hne hblank (hunderivable w hw)]
    exact accepts_eq_false_of_mem_complement (Expansion.stepsFor_le_iff.mpr hsteps) hw

/-- Sentences of up to four tokens, joined by a tab and an ideographic space: two are derived and
the other twenty-eight are not. -/
theorem samples_labelled_balanced :
    let samples := Samples.join (balanced.sentences "S" 7 .leftmost)
      (complement (balanced.sentences "S" 7 .leftmost) balanced.terminals 4) "\t\u3000"
    Grammar.parse .declared "S -> A B\nS -> AC\nC -> SB\nA -> a\nB -> b" = .ok balanced ∧
    balanced.undefinedNames = ∅ ∧ balanced.defines "S" = true ∧ 2 * 4 ≤ 7 + 1 ∧
    samples.positive.size = 2 ∧ samples.negative.size = 28 ∧
    (Recogniser.ofGrammar balanced "S").acceptsText "a\t\u3000a\t\u3000b\t\u3000b" = true ∧
    (Recogniser.ofGrammar balanced "S").acceptsText "a\t\u3000b\t\u3000a\t\u3000b" = false := by
  intro samples
  have hparse : Grammar.parse .declared "S -> A B\nS -> AC\nC -> SB\nA -> a\nB -> b" =
      .ok balanced := rfl
  have hdefined : balanced.undefinedNames = ∅ := by decide +kernel
  have hstart : balanced.defines "S" = true := by decide
  have hne : "\t\u3000" ≠ "" := by decide
  have hblank : ∀ c ∈ "\t\u3000".toList, Text.isBlank c = true :=
    List.all_eq_true.mp (by decide : "\t\u3000".toList.all Text.isBlank = true)
  obtain ⟨hpositive, hnegative, haccepted, hrejected⟩ :=
    samples_labelled_of_parse hparse hdefined hstart 7 .leftmost 4 hne hblank
  have hderived : "a\t\u3000a\t\u3000b\t\u3000b" ∈ samples.positive :=
    Samples.mem_positive_join.mpr ⟨["a", "a", "b", "b"], by decide +kernel, rfl⟩
  have hother : "a\t\u3000b\t\u3000a\t\u3000b" ∈ samples.negative :=
    Samples.mem_negative_join.mpr ⟨⟨["a", "b", "a", "b"], by decide +kernel, rfl⟩, by decide +kernel⟩
  refine ⟨hparse, hdefined, hstart, by decide, ?_, ?_, haccepted _ hderived,
    hrejected (Or.inl ⟨rfl, by decide⟩) _ hother⟩
  · rw [hpositive]
    decide +kernel
  · rw [hnegative]
    decide +kernel

end Chomsky
