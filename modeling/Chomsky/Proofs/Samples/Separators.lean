import Chomsky.Proofs.Samples.Joining

/-!
# Separators that no token contains

A joined sentence can be read back without its tokens being words and its separator being blank: it is
enough that the tokens hold nothing of the separator. Then the first character of the separator marks
where a token ends, and the tokens come off a line one after the other, empty ones included.

* **`eq_and_eq_of_append_eq_append`**: a token ends where the mark is seen first.
* **`eq_of_joinWith_eq`**: sentences with the same line have the same first token and the same line after
  it, so they are equal. Only the sentence without tokens has to be left out: its line is that of the
  sentence of one empty token.
* **`Samples.join_disjoint_complete_lossless`**: whatever the separator, the two samples share no line and
  none is lost; with a separator that no token contains, every sentence has a line of its own.
-/

namespace Chomsky

/-! ## Where a token ends -/

/-- What follows a token: nothing, or something that the mark begins. -/
def OpensWith (mark : Char) (chars : List Char) : Prop :=
  chars = [] ∨ ∃ more, chars = mark :: more

variable {mark : Char}

theorem takeWhile_append_of_opensWith {front back : List Char} (hfront : mark ∉ front)
    (hback : OpensWith mark back) : (front ++ back).takeWhile (· != mark) = front := by
  have hclear : ∀ c ∈ front, (c != mark) = true := by
    intro c hc
    have hne : c ≠ mark := fun heq => hfront (heq ▸ hc)
    simpa using hne
  rw [List.takeWhile_append_of_pos hclear]
  rcases hback with rfl | ⟨more, rfl⟩
  · simp
  · simp

/-- **The mark ends a token**, so two lines that agree agree before it and from it on. -/
theorem eq_and_eq_of_append_eq_append {front front' back back' : List Char}
    (hfront : mark ∉ front) (hfront' : mark ∉ front') (hback : OpensWith mark back)
    (hback' : OpensWith mark back') (h : front ++ back = front' ++ back') :
    front = front' ∧ back = back' := by
  have heq : front = front' := by
    rw [← takeWhile_append_of_opensWith hfront hback, h,
      takeWhile_append_of_opensWith hfront' hback']
  subst heq
  exact ⟨rfl, List.append_cancel_left h⟩

/-! ## Lines that are told apart -/

/-- What stands on a line after its first token, when these are the tokens that follow. -/
def restOfLine (separator : String) : Sentence → List Char
  | [] => []
  | token :: more => separator.toList ++ (joinWith separator (token :: more)).toList

theorem toList_joinWith_cons (separator token : String) (rest : Sentence) :
    (joinWith separator (token :: rest)).toList = token.toList ++ restOfLine separator rest := by
  cases rest with
  | nil => exact (List.append_nil _).symm
  | cons next more =>
    show (token ++ separator ++ joinWith separator (next :: more)).toList = _
    rw [String.toList_append, String.toList_append, List.append_assoc]
    rfl

variable {separator : String} {more : List Char}

theorem opensWith_restOfLine (hseparator : separator.toList = mark :: more) (rest : Sentence) :
    OpensWith mark (restOfLine separator rest) := by
  cases rest with
  | nil => exact Or.inl rfl
  | cons next others =>
    right
    unfold restOfLine
    rw [hseparator]
    exact ⟨_, rfl⟩

/-- A line that goes on after a token goes on with a separator, so both sentences have ended there or
neither has. -/
theorem nil_iff_and_joinWith_eq_of_restOfLine_eq (hseparator : separator.toList = mark :: more)
    {u v : Sentence} (h : restOfLine separator u = restOfLine separator v) :
    (u = [] ↔ v = []) ∧ joinWith separator u = joinWith separator v := by
  unfold restOfLine at h
  cases u with
  | nil =>
    cases v with
    | nil => exact ⟨Iff.rfl, rfl⟩
    | cons token others => simp [hseparator] at h
  | cons token others =>
    cases v with
    | nil => simp [hseparator] at h
    | cons token' others' =>
      exact ⟨by simp, String.toList_inj.mp (List.append_cancel_left h)⟩

/-- **Sentences of tokens without the mark are equal when their lines are.** -/
theorem eq_of_joinWith_eq (hseparator : separator.toList = mark :: more) {u v : Sentence}
    (hu : u ≠ []) (hv : v ≠ []) (hutokens : ∀ token ∈ u, mark ∉ token.toList)
    (hvtokens : ∀ token ∈ v, mark ∉ token.toList)
    (h : joinWith separator u = joinWith separator v) : u = v := by
  induction u generalizing v with
  | nil => exact absurd rfl hu
  | cons token rest ih =>
    cases v with
    | nil => exact absurd rfl hv
    | cons token' rest' =>
      have hline : token.toList ++ restOfLine separator rest =
          token'.toList ++ restOfLine separator rest' := by
        rw [← toList_joinWith_cons, ← toList_joinWith_cons, h]
      have hcut := eq_and_eq_of_append_eq_append (hutokens token List.mem_cons_self)
        (hvtokens token' List.mem_cons_self) (opensWith_restOfLine hseparator rest)
        (opensWith_restOfLine hseparator rest') hline
      have htoken : token = token' := String.toList_inj.mp hcut.1
      have hafter := nil_iff_and_joinWith_eq_of_restOfLine_eq hseparator hcut.2
      have hrest : rest = rest' := by
        by_cases hend : rest = []
        · rw [hend, hafter.1.mp hend]
        · exact ih hend (fun hend' => hend (hafter.1.mpr hend'))
            (fun t ht => hutokens t (List.mem_cons_of_mem token ht))
            (fun t ht => hvtokens t (List.mem_cons_of_mem token' ht)) hafter.2
      rw [htoken, hrest]

/-! ## Both samples -/

/-- No token of a sentence holds a character of the separator. -/
def FreeOf (separator : String) (w : Sentence) : Prop :=
  ∀ token ∈ w, ∀ c ∈ separator.toList, c ∉ token.toList

theorem injOn_joinWith_of_freeOf (hne : separator ≠ "") {s : Set Sentence}
    (hs : ∀ w ∈ s, w ≠ [] ∧ FreeOf separator w) : Set.InjOn (joinWith separator) s := by
  cases hseparator : separator.toList with
  | nil => exact absurd (String.toList_eq_nil_iff.mp hseparator) hne
  | cons mark more =>
    have hmark : mark ∈ separator.toList := by
      rw [hseparator]
      exact List.mem_cons_self
    intro u hu v hv huv
    exact eq_of_joinWith_eq hseparator (hs u hu).1 (hs v hv).1
      (fun token htoken => (hs u hu).2 token htoken mark hmark)
      (fun token htoken => (hs v hv).2 token htoken mark hmark) huv

namespace Samples

/-- **Joined samples are disjoint and complete, and lossless where they can be.** The positive lines are
those of the language, no line is in both samples, and the negative lines are lines of underivable
sentences, of which each has its line in one sample or the other. If the separator is not empty, no token
contains any of it, and no sentence is empty, there are as many positive lines as sentences in the
language, and as many negative ones as other sentences, whose lines they are. -/
theorem join_disjoint_complete_lossless (language underivable : Language) (separator : String) :
    let samples := join language underivable separator
    (∀ line, line ∈ samples.positive ↔ ∃ w ∈ language, joinWith separator w = line) ∧
    (∀ line, ¬(line ∈ samples.positive ∧ line ∈ samples.negative)) ∧
    (∀ w ∈ underivable,
      joinWith separator w ∈ samples.positive ∨ joinWith separator w ∈ samples.negative) ∧
    (∀ line ∈ samples.negative, ∃ w ∈ underivable, joinWith separator w = line) ∧
    (separator ≠ "" → (∀ w, w ∈ language ∨ w ∈ underivable → w ≠ [] ∧ FreeOf separator w) →
      samples.positive.size = language.size ∧
      samples.negative.size = (underivable.filter (· ∉ language)).size ∧
      ∀ line, line ∈ samples.negative ↔
        ∃ w ∈ underivable, w ∉ language ∧ joinWith separator w = line) := by
  intro samples
  refine ⟨fun line => mem_positive_join, ?_, ?_, ?_, ?_⟩
  · rintro line ⟨hpositive, hnegative⟩
    exact (mem_negative_join.mp hnegative).2 hpositive
  · intro w hw
    by_cases hpositive : joinWith separator w ∈ samples.positive
    · exact Or.inl hpositive
    · exact Or.inr (mem_negative_join.mpr ⟨⟨w, hw, rfl⟩, hpositive⟩)
  · intro line hline
    exact (mem_negative_join.mp hline).1
  · intro hne hfree
    have hjoin : Set.InjOn (joinWith separator) {w | w ∈ language ∨ w ∈ underivable} :=
      injOn_joinWith_of_freeOf hne hfree
    refine ⟨size_positive_join (hjoin.mono fun w hw => Or.inl hw), size_negative_join hjoin, ?_⟩
    intro line
    show line ∈ (join language underivable separator).negative ↔ _
    rw [negative_join_eq hjoin]
    simp [Std.ExtTreeSet.mem_ofList, Std.ExtTreeSet.mem_filter, and_assoc]

/-- A separator of two characters, between tokens some of which are empty. -/
theorem join_lossless_of_empty_tokens :
    let language : Language := .ofList [["", ""], ["x", ""]]
    let underivable : Language := .ofList [["", ""], ["", "x"], [""]]
    let samples := join language underivable "--"
    "--" ≠ "" ∧ (∀ w, w ∈ language ∨ w ∈ underivable → w ≠ [] ∧ FreeOf "--" w) ∧
    samples.positive.size = 2 ∧ samples.negative.size = 2 ∧ "--x" ∈ samples.negative := by
  intro language underivable samples
  have hne : "--" ≠ "" := by decide
  have hfree : ∀ w, w ∈ language ∨ w ∈ underivable → w ≠ [] ∧ FreeOf "--" w := by
    intro w hw
    simp only [language, underivable, Std.ExtTreeSet.mem_ofList, List.contains_iff_mem] at hw
    simp only [List.mem_cons, List.not_mem_nil, or_false] at hw
    rcases hw with (rfl | rfl) | rfl | rfl | rfl
    all_goals simp [FreeOf]
  obtain ⟨-, -, -, -, hlossless⟩ := join_disjoint_complete_lossless language underivable "--"
  obtain ⟨hpositive, hnegative, hlines⟩ := hlossless hne hfree
  refine ⟨hne, hfree, ?_, ?_, (hlines "--x").mpr ⟨["", "x"], ?_, ?_, rfl⟩⟩
  · rw [hpositive]
    decide +kernel
  · rw [hnegative]
    decide +kernel
  · decide +kernel
  · decide +kernel

end Samples

end Chomsky
