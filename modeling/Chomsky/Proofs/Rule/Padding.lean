import Mathlib.Data.List.Induction
import Chomsky.Proofs.Rule.Line

/-!
# Blanks around a rule line

The sides of a line are trimmed, but the arrow is looked for before. A word `->` at an edge of the line
may lack no more than one plain blank to be an arrow, and a blank outside of the line may be that one.

* **`isInfix_blanks_append_iff`** and **`isInfix_append_blanks_iff`**: when blanks before or behind a
  text complete an arrow. The sign of the arrow is no blank, so one plain blank next to the text is all
  that an arrow can have of them.
* **`completesArrow_iff`**: the blanks around a line with two sides complete an arrow if the one of
  the line is no longer found first, or no longer the only one.
* **`ofLine_padded`**: a line that was read is read alike with blanks around it, or the blanks
  complete an arrow. Then the line is refused, for the left side that is missing now or for a second
  arrow.
-/

namespace Chomsky.Rule

/-! ## Arrows that blanks complete -/

variable {blanks text : List Char}

theorem isInfix_blanks_append_iff (h : ∀ ch ∈ blanks, Text.isBlank ch = true) :
    arrow.toList <:+: blanks ++ text ↔ arrow.toList <:+: text ∨
      blanks.getLast? = some ' ' ∧ ['-', '>', ' '] <+: text := by
  induction blanks with
  | nil => simp
  | cons first rest ih =>
    have hrest : ∀ ch ∈ rest, Text.isBlank ch = true := fun ch hch => h ch (by simp [hch])
    rw [List.cons_append, List.infix_cons_iff, ih hrest, toList_arrow, List.cons_prefix_cons]
    cases rest with
    | nil => simp [or_comm, eq_comm]
    | cons next others =>
      -- behind the first blank comes another one, and not the sign of an arrow
      have hnext : ¬['-', '>', ' '] <+: (next :: others) ++ text := by
        intro hsign
        obtain ⟨rfl, -⟩ := List.cons_prefix_cons.mp hsign
        exact absurd (hrest '-' (by simp)) (by decide)
      rw [or_iff_right (fun hfirst => hnext hfirst.2), List.getLast?_cons_cons]

theorem isInfix_append_blanks_iff (h : ∀ ch ∈ blanks, Text.isBlank ch = true) :
    arrow.toList <:+: text ++ blanks ↔ arrow.toList <:+: text ∨
      [' ', '-', '>'] <:+ text ∧ blanks.head? = some ' ' := by
  induction blanks using List.reverseRecOn with
  | nil => simp
  | append_singleton rest last ih =>
    have hrest : ∀ ch ∈ rest, Text.isBlank ch = true := fun ch hch => h ch (by simp [hch])
    have hlast : arrow.toList <:+ text ++ rest ++ [last] ↔
        [' ', '-', '>'] <:+ text ++ rest ∧ [' '] = [last] := by
      show [' ', '-', '>'] ++ [' '] <:+ text ++ rest ++ [last] ↔ _
      exact List.suffix_append_inj_of_length_eq rfl
    rw [← List.append_assoc, List.infix_concat_iff, hlast, ih hrest]
    cases rest using List.reverseRecOn with
    | nil => simp [or_comm, eq_comm]
    | append_singleton others next =>
      -- before the last blank comes another one, and not the sign of an arrow
      have hnext : ¬[' ', '-', '>'] <:+ text ++ (others ++ [next]) := by
        intro hsign
        have hends : [' ', '-'] ++ ['>'] <:+ text ++ others ++ [next] := by
          rwa [List.append_assoc]
        obtain ⟨-, hsame⟩ := (List.suffix_append_inj_of_length_eq (by rfl)).mp hends
        obtain rfl := List.singleton_inj.mp hsame
        exact absurd (hrest '>' (by simp)) (by decide)
      rw [or_iff_right (fun hfirst => hnext hfirst.1)]
      simp

/-! ## Around a line -/

/-- Blanks around a line complete an arrow that is not its own: before it, if the line begins with
the sign of one, and behind it, if the line ends in the sign of one, apart from its own arrow. -/
inductive CompletesArrow (before line after : List Char) : Prop where
  | front (hblank : before.getLast? = some ' ') (hsign : ['-', '>', ' '] <+: line)
  | back {x y : List Char} (hblank : after.head? = some ' ')
      (hsign : line = x ++ (arrow.toList ++ (y ++ [' ', '-', '>'])))

variable {before left right after : List Char}

theorem isInfix_blanks_append_left_iff (hbefore : ∀ ch ∈ before, Text.isBlank ch = true)
    (hne : left ≠ []) (hleft : ¬arrow.toList <:+: left ++ [' ', '-', '>']) (right : List Char) :
    arrow.toList <:+: before ++ left ++ [' ', '-', '>'] ↔
      before.getLast? = some ' ' ∧ ['-', '>', ' '] <+: left ++ (arrow.toList ++ right) := by
  obtain ⟨first, rest, rfl⟩ := List.exists_cons_of_ne_nil hne
  have hcut : ['-', '>', ' '] <+: first :: (rest ++ (arrow.toList ++ right)) ↔
      ['-', '>', ' '] <+: first :: (rest ++ [' ', '-', '>']) := isPrefix_cut_iff (by decide)
  rw [List.append_assoc, isInfix_blanks_append_iff hbefore, or_iff_right hleft]
  rw [List.cons_append, List.cons_append, hcut]

/-- The blanks around a line with two sides complete an arrow if the one of the line is no longer
found first, or no longer the only one. -/
theorem completesArrow_iff (hbefore : ∀ ch ∈ before, Text.isBlank ch = true)
    (hafter : ∀ ch ∈ after, Text.isBlank ch = true) (hne : left ≠ [])
    (hleft : ¬arrow.toList <:+: left ++ [' ', '-', '>']) (hright : ¬arrow.toList <:+: right) :
    CompletesArrow before (left ++ (arrow.toList ++ right)) after ↔
      arrow.toList <:+: before ++ left ++ [' ', '-', '>'] ∨ arrow.toList <:+: right ++ after := by
  have hfront := isInfix_blanks_append_left_iff hbefore hne hleft right
  have hback : arrow.toList <:+: right ++ after ↔
      [' ', '-', '>'] <:+ right ∧ after.head? = some ' ' := by
    rw [isInfix_append_blanks_iff hafter, or_iff_right hright]
  rw [hfront, hback]
  apply Iff.intro
  · intro h
    cases h with
    | front hblank hsign => exact Or.inl ⟨hblank, hsign⟩
    | @back x y hblank hsign =>
      -- the other arrow of the line shares a blank with its own, or is its own
      refine Or.inr ⟨?_, hblank⟩
      rcases eq_or_shares_or_isInfix hsign hleft with rfl | rfl | hmore
      · have hsame := List.append_cancel_left (List.append_cancel_left hsign)
        exact ⟨y, hsame.symm⟩
      · rw [List.append_assoc] at hsign
        have hsame := List.append_cancel_left hsign
        exact ⟨'-' :: '>' :: ' ' :: y, by simpa using hsame.symm⟩
      · exact absurd hmore hright
  · intro h
    rcases h with ⟨hblank, hsign⟩ | ⟨⟨y, rfl⟩, hblank⟩
    · exact .front hblank hsign
    · exact .back hblank rfl

variable {c : Classifier} {line : List Char} {rule : Rule}

/-- A text that is trimmed to a word still is with blanks before it. -/
theorem trim_padded {word text : List Char} (hword : Text.IsWord word)
    (htrim : Text.trim text = word) (hbefore : ∀ ch ∈ before, Text.isBlank ch = true) :
    Text.trim (before ++ text) = word := by
  apply Text.trim_of_words_eq_singleton
  rw [Text.words_blanks_append hbefore, ← Text.words_trim text, htrim, Text.words_of_isWord hword]

/-- Blanks in front of an arrow are no left side. -/
theorem ofLine_blanks_append_arrow (hbefore : ∀ ch ∈ before, Text.isBlank ch = true)
    (hfirst : ¬arrow.toList <:+: before ++ [' ', '-', '>']) (text : List Char) :
    ofLine c (before ++ (arrow.toList ++ text)) = .error .noLeftSide ∨
      ofLine c (before ++ (arrow.toList ++ text)) = .error .secondArrow := by
  by_cases hmore : arrow.toList <:+: text
  · right
    rw [ofLine, sides_eq_error_of_isInfix hfirst hmore]
    rfl
  · left
    have hsides : sides (before ++ (arrow.toList ++ text)) = .ok ([], Text.trim text) :=
      sides_eq_ok_iff.mpr ⟨before, text, rfl, hfirst, hmore, Text.trim_of_blanks hbefore, rfl⟩
    rw [ofLine, hsides]
    rfl

/-- Blanks before a line that begins with the sign of an arrow move its first arrow into them. -/
theorem ofLine_eq_error_of_front (hbefore : ∀ ch ∈ before, Text.isBlank ch = true)
    (hblank : before.getLast? = some ' ') (hsign : ['-', '>', ' '] <+: line) :
    ofLine c (before ++ line) = .error .noLeftSide ∨
      ofLine c (before ++ line) = .error .secondArrow := by
  obtain ⟨others, rfl⟩ := List.getLast?_eq_some_iff.mp hblank
  obtain ⟨text, rfl⟩ := hsign
  have hothers : ∀ ch ∈ others, Text.isBlank ch = true := fun ch hch => hbefore ch (by simp [hch])
  have hfirst : ¬arrow.toList <:+: others ++ [' ', '-', '>'] := by
    rw [isInfix_blanks_append_iff hothers, not_or]
    exact ⟨not_isInfix_of_count_lt_two (by decide), fun hboth => absurd hboth.2 (by decide)⟩
  -- the last blank and the sign behind it make an arrow, with only blanks before it
  have hpadded : others ++ [' '] ++ (['-', '>', ' '] ++ text) = others ++ (arrow.toList ++ text) := by
    rw [List.append_assoc]
    rfl
  rw [hpadded]
  exact ofLine_blanks_append_arrow hothers hfirst text

/-- **Blanks around a line that was read.** Either they change nothing, or they complete an arrow, and
the line is refused. -/
theorem ofLine_padded (h : ofLine c line = .ok rule)
    (hbefore : ∀ ch ∈ before, Text.isBlank ch = true)
    (hafter : ∀ ch ∈ after, Text.isBlank ch = true) :
    (¬CompletesArrow before line after → ofLine c (before ++ (line ++ after)) = .ok rule) ∧
      (CompletesArrow before line after →
        ofLine c (before ++ (line ++ after)) = .error .noLeftSide ∨
          ofLine c (before ++ (line ++ after)) = .error .secondArrow) := by
  obtain ⟨l, r, hsides, hl, hname, hread⟩ := ofLine_eq_ok_iff.mp h
  obtain ⟨left, right, rfl, hleft, hright, rfl, rfl⟩ := sides_eq_ok_iff.mp hsides
  have hne : left ≠ [] := by
    rintro rfl
    exact hname.1.ne_nil hl.symm
  have hpadded : before ++ (left ++ (arrow.toList ++ right) ++ after) =
      before ++ left ++ (arrow.toList ++ (right ++ after)) := by
    simp only [List.append_assoc]
  rw [completesArrow_iff hbefore hafter hne hleft hright, not_or]
  apply And.intro
  · intro hnone
    -- the arrow of the line is found again, and the sides only have more blanks at their ends
    have htrim : Text.trim (before ++ left) = rule.left.toList := trim_padded hname.1 hl hbefore
    rw [hpadded]
    refine ofLine_eq_ok_iff.mpr ⟨_, _, sides_eq_ok_iff.mpr ⟨_, _, rfl, hnone.1, hnone.2, rfl, rfl⟩,
      htrim, hname, ?_⟩
    rw [Text.words_trim, Text.words_append_blanks hafter, ← Text.words_trim right]
    exact hread
  · intro hmore
    -- an arrow in front of the line hides its own; one behind it comes second
    by_cases hfirst : arrow.toList <:+: before ++ left ++ [' ', '-', '>']
    · obtain ⟨hblank, hsign⟩ := (isInfix_blanks_append_left_iff hbefore hne hleft right).mp hfirst
      exact ofLine_eq_error_of_front hbefore hblank (hsign.trans (List.prefix_append _ after))
    · right
      rw [hpadded, ofLine, sides_eq_error_of_isInfix hfirst (hmore.resolve_left hfirst)]
      rfl

/-- The token of this rule is the sign of the arrow. A blank in front and a tab behind leave the rule as
it is; a blank behind makes a second arrow of the token, and the line is refused. -/
theorem ofLine_padded_of_arrow_token :
    ofLine .uppercase "A ->  ->".toList = .ok ⟨"A", .unary "->"⟩ ∧
      ofLine .uppercase ([' '] ++ ("A ->  ->".toList ++ ['\t'])) = .ok ⟨"A", .unary "->"⟩ ∧
      (ofLine .uppercase ([] ++ ("A ->  ->".toList ++ [' '])) = .error .noLeftSide ∨
        ofLine .uppercase ([] ++ ("A ->  ->".toList ++ [' '])) = .error .secondArrow) := by
  have hread : ofLine .uppercase "A ->  ->".toList = .ok ⟨"A", .unary "->"⟩ := by decide +kernel
  have hspace : ∀ ch ∈ [' '], Text.isBlank ch = true := List.all_eq_true.mp (by decide)
  have htab : ∀ ch ∈ ['\t'], Text.isBlank ch = true := List.all_eq_true.mp (by decide)
  refine ⟨hread, ?_, ?_⟩
  · refine (ofLine_padded hread hspace htab).1 fun hcompletes => ?_
    cases hcompletes with
    | front hblank hsign => exact absurd hsign (by decide +kernel)
    | back hblank hsign => exact absurd hblank (by decide)
  · refine (ofLine_padded hread (List.forall_mem_nil _) hspace).2 ?_
    exact .back (x := ['A']) (y := []) rfl rfl

/-- The same before a line, where `->` is declared to be a nonterminal. -/
example : ofLine (.declared {"->"}) "-> -> a".toList = .ok ⟨"->", .unary "a"⟩ ∧
    ofLine (.declared {"->"}) " -> -> a".toList = .error .noLeftSide := by
  decide +kernel

/-- The word `->` at the end of the right side is taken for an arrow as soon as a blank follows. -/
theorem not_forall_ofLine_padded :
    ¬∀ (c : Classifier) (line : List Char) (rule : Rule) (before after : List Char),
      ofLine c line = .ok rule → (∀ ch ∈ before, Text.isBlank ch = true) →
        (∀ ch ∈ after, Text.isBlank ch = true) →
          ofLine c (before ++ (line ++ after)) = .ok rule := by
  intro h
  have hpadded : ofLine .uppercase ([] ++ ("A ->  ->".toList ++ [' '])) = .ok ⟨"A", .unary "->"⟩ :=
    h .uppercase _ _ [] [' '] (by decide +kernel) (List.forall_mem_nil _)
      (List.all_eq_true.mp (by decide))
  exact absurd hpadded (by decide +kernel)

end Chomsky.Rule
