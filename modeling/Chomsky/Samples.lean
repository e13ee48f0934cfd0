import Chomsky.Symbol

/-!
# Positive and negative samples

Test data for a recogniser: sentences that a grammar derives, and sentences over the same tokens
that it does not derive. When sentences are joined into lines, different ones can give the same
line; a line that some derived sentence gives is positive, and only the other lines are negative.
-/

namespace Chomsky

/-! ## Sentences outside a language -/

/-- The sentences of exactly `n` tokens. -/
def sentencesOfLength (tokens : List String) : Nat → List Sentence
  | 0 => [[]]
  | n + 1 =>
    let shorter := sentencesOfLength tokens n
    tokens.flatMap fun token => shorter.map (token :: ·)

/-- The sentences of one to `bound` tokens. -/
def sentencesUpTo (tokens : List String) (bound : Nat) : List Sentence :=
  (List.range bound).flatMap fun n => sentencesOfLength tokens (n + 1)

/-- The sentences of one to `bound` of the given tokens that are not in a language. -/
def complement (language : Language) (tokens : NameSet) (bound : Nat) : Language :=
  .ofList ((sentencesUpTo tokens.toList bound).filter (· ∉ language))

@[simp] theorem mem_sentencesOfLength {tokens : List String} {n : Nat} {w : Sentence} :
    w ∈ sentencesOfLength tokens n ↔ w.length = n ∧ ∀ token ∈ w, token ∈ tokens := by
  induction n generalizing w with
  | zero => cases w <;> simp [sentencesOfLength]
  | succ n ih =>
    simp only [sentencesOfLength, List.mem_flatMap, List.mem_map]
    apply Iff.intro
    · intro h
      obtain ⟨token, htoken, rest, hrest, rfl⟩ := h
      obtain ⟨hlength, htokens⟩ := ih.1 hrest
      simpa [hlength, htoken] using htokens
    · intro h
      obtain ⟨hlength, htokens⟩ := h
      cases w with
      | nil => cases hlength
      | cons token rest =>
        refine ⟨token, htokens token List.mem_cons_self, rest, ih.2 ⟨?_, ?_⟩, rfl⟩
        · simpa using hlength
        · exact fun t ht => htokens t (List.mem_cons_of_mem _ ht)

/-- The sentences of one to `bound` tokens are all that there are. -/
@[simp] theorem mem_sentencesUpTo {tokens : List String} {bound : Nat} {w : Sentence} :
    w ∈ sentencesUpTo tokens bound ↔
      (1 ≤ w.length ∧ w.length ≤ bound) ∧ ∀ token ∈ w, token ∈ tokens := by
  simp only [sentencesUpTo, List.mem_flatMap, List.mem_range, mem_sentencesOfLength]
  apply Iff.intro
  · intro h
    obtain ⟨n, hn, hlength, htokens⟩ := h
    exact ⟨⟨by omega, by omega⟩, htokens⟩
  · intro h
    obtain ⟨⟨hpos, hbound⟩, htokens⟩ := h
    exact ⟨w.length - 1, by omega, by omega, htokens⟩

@[simp] theorem mem_complement {language : Language} {tokens : NameSet} {bound : Nat} {w : Sentence} :
    w ∈ complement language tokens bound ↔
      (1 ≤ w.length ∧ w.length ≤ bound) ∧ (∀ token ∈ w, token ∈ tokens) ∧ w ∉ language := by
  simp [complement, Std.ExtTreeSet.mem_ofList, and_assoc]

/-! ## Joined sentences -/

/-- The tokens of a sentence with a separator between neighbours. -/
def joinWith (separator : String) : Sentence → String
  | [] => ""
  | [token] => token
  | token :: rest => token ++ separator ++ joinWith separator rest

/-- The lines of a positive and of a negative sample. -/
structure Samples where
  positive : NameSet
  negative : NameSet
  deriving DecidableEq

namespace Samples

/-- The lines of the derived sentences, and the other lines of the underivable ones. -/
def join (language underivable : Language) (separator : String) : Samples :=
  let positive : NameSet := .ofList (language.toList.map (joinWith separator))
  let negative : NameSet := .ofList (underivable.toList.map (joinWith separator))
  ⟨positive, negative.filter (· ∉ positive)⟩

/-- The written form of a sample: one line for each text, in ascending order, each line ended. -/
def render (texts : NameSet) : String :=
  String.join (texts.toList.map (· ++ "\n"))

@[simp] theorem mem_positive_join {language underivable : Language} {separator line : String} :
    line ∈ (join language underivable separator).positive ↔
      ∃ w ∈ language, joinWith separator w = line := by
  simp [join, Std.ExtTreeSet.mem_ofList]

/-- A line is negative when an underivable sentence gives it and no derived one does. -/
@[simp] theorem mem_negative_join {language underivable : Language} {separator line : String} :
    line ∈ (join language underivable separator).negative ↔
      (∃ w ∈ underivable, joinWith separator w = line) ∧
        line ∉ (join language underivable separator).positive := by
  simp [join, Std.ExtTreeSet.mem_ofList, Std.ExtTreeSet.mem_filter]

end Samples

end Chomsky
