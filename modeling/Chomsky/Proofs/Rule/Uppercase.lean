import Chomsky.Proofs.Grammar.WellFormed

/-!
# Rule lines by capitals

Where names start with an uppercase character, a rule line can be told by its words and the blanks
around two of them, without mention of sides, trimming or the order of the search:

* **`Production.SpelledBy`**: which words behind the arrow make which production.
* **`Text.SpacedArrow`**: a word `->` with a plain blank on either side.
* **`Rule.ofLine_uppercase_eq_ok_iff`**: the first word is a name, the second word is such an arrow, and
  the other words make a production. Only a line whose last word is an arrow again may still be refused,
  when that word is a second arrow with blanks of its own.

The words of the line are those of the two sides (`words_append_arrow`). If the line was read, the only
arrow among the other words is one that was not found (`place_eq_of_spacedArrow`). Conversely, the words
leave no room for an arrow before the second of them (`not_isInfix_of_words_eq_singleton`) and, but for
the exception, behind it (`not_isInfix_of_spelledBy`).
-/

namespace Chomsky

open Text (StartsUppercase IsWord)

/-- With `i` words of the text before it there stands the word `->`, with a plain blank right before it,
which is the character at `place`, and a plain blank right after it. -/
def Text.SpacedArrow (text : List Char) (i place : Nat) : Prop :=
  ∃ front back, text = front ++ ' ' :: '-' :: '>' :: ' ' :: back ∧ (words front).length = i ∧
    front.length = place

/-- The words that spell a production: two uppercase characters together, one word that does not start
with an uppercase character, or two words that do. -/
inductive Production.SpelledBy : List (List Char) → Production → Prop where
  | together {l r : Char} (hl : Text.isUppercase l = true) (hr : Text.isUppercase r = true) :
      SpelledBy [[l, r]] (.binary (.ofList [l]) (.ofList [r]))
  | token {word : List Char} (hword : ¬StartsUppercase word) :
      SpelledBy [word] (.unary (.ofList word))
  | apart {l r : List Char} (hl : StartsUppercase l) (hr : StartsUppercase r) :
      SpelledBy [l, r] (.binary (.ofList l) (.ofList r))

/-! ## The words of a production -/

theorem startsUppercase_cons_iff {first : Char} {rest : List Char} :
    StartsUppercase (first :: rest) ↔ Text.isUppercase first = true := by
  rw [← Classifier.isNonterminal_uppercase_iff]
  rfl

/-- The sign of the arrow does not start like a name. -/
theorem not_startsUppercase_arrow : ¬StartsUppercase ['-', '>'] := by
  rw [startsUppercase_cons_iff]
  decide

theorem takesForName_uppercase_ofList_iff {word : List Char} (hword : IsWord word) :
    Classifier.uppercase.TakesForName (.ofList word) ↔ StartsUppercase word := by
  rw [Classifier.takesForName_uppercase_iff, String.toList_ofList]
  exact and_iff_right hword

theorem takesForToken_uppercase_ofList_iff {word : List Char} (hword : IsWord word) :
    Classifier.uppercase.TakesForToken (.ofList word) ↔ ¬StartsUppercase word := by
  rw [Classifier.takesForToken_uppercase_iff, String.toList_ofList]
  exact and_iff_right hword

/-- **What is read by capitals is what is spelled.** -/
theorem readFrom_uppercase_iff {ws : List (List Char)} {p : Production}
    (hws : ∀ word ∈ ws, IsWord word) :
    Production.ReadFrom .uppercase ws p ↔ Production.SpelledBy ws p := by
  apply Iff.intro
  · intro h
    cases h with
    | @token t ht =>
      have hspelled := Production.SpelledBy.token (Classifier.takesForToken_uppercase_iff.mp ht).2
      rwa [String.ofList_toList] at hspelled
    | @together l r hl hr hlone hrone =>
      obtain ⟨a, ha⟩ := length_eq_one_iff.mp hlone
      obtain ⟨b, hb⟩ := length_eq_one_iff.mp hrone
      have hleft := (Classifier.takesForName_uppercase_iff.mp hl).2
      have hright := (Classifier.takesForName_uppercase_iff.mp hr).2
      rw [ha, startsUppercase_cons_iff] at hleft
      rw [hb, startsUppercase_cons_iff] at hright
      have hword : l.toList ++ r.toList = [a, b] := by
        rw [ha, hb]
        rfl
      have hspelled := Production.SpelledBy.together hleft hright
      rwa [← hword, ← ha, ← hb, String.ofList_toList, String.ofList_toList] at hspelled
    | @apart l r hl hr =>
      have hspelled := Production.SpelledBy.apart (Classifier.takesForName_uppercase_iff.mp hl).2
        (Classifier.takesForName_uppercase_iff.mp hr).2
      rwa [String.ofList_toList, String.ofList_toList] at hspelled
  · intro h
    cases h with
    | @together a b ha hb =>
      have hword : IsWord [a, b] := hws _ (by simp)
      have hl := (takesForName_uppercase_ofList_iff (hword.singleton (by simp))).mpr
        (startsUppercase_cons_iff.mpr ha)
      have hr := (takesForName_uppercase_ofList_iff (hword.singleton (by simp))).mpr
        (startsUppercase_cons_iff.mpr hb)
      have hread := Production.ReadFrom.together hl hr (by simp) (by simp)
      simpa using hread
    | @token word hword =>
      have ht := (takesForToken_uppercase_ofList_iff (hws word (by simp))).mpr hword
      have hread := Production.ReadFrom.token ht
      rwa [String.toList_ofList] at hread
    | @apart l r hl hr =>
      have hl := (takesForName_uppercase_ofList_iff (hws l (by simp))).mpr hl
      have hr := (takesForName_uppercase_ofList_iff (hws r (by simp))).mpr hr
      have hread := Production.ReadFrom.apart hl hr
      rwa [String.toList_ofList, String.toList_ofList] at hread

/-- An arrow among the words of a production is its token. -/
theorem eq_singleton_of_arrow_mem {ws : List (List Char)} {p : Production}
    (h : Production.SpelledBy ws p) (harrow : ['-', '>'] ∈ ws) : ws = [['-', '>']] := by
  cases h with
  | together hl hr =>
    obtain ⟨rfl, -⟩ := List.cons.inj (List.mem_singleton.mp harrow)
    exact absurd (startsUppercase_cons_iff.mpr hl) not_startsUppercase_arrow
  | token hword => rw [List.mem_singleton.mp harrow]
  | apart hl hr =>
    rcases List.mem_cons.mp harrow with rfl | harrow
    · exact absurd hl not_startsUppercase_arrow
    · obtain rfl := List.mem_singleton.mp harrow
      exact absurd hr not_startsUppercase_arrow

/-! ## The words of a line -/

namespace Rule

theorem isWord_sign : IsWord ['-', '>'] where
  ne_nil := List.cons_ne_nil _ _
  no_blank := List.forall_mem_cons.mpr ⟨by decide, List.forall_mem_cons.mpr ⟨by decide, by simp⟩⟩

theorem words_append_arrow (left right : List Char) :
    Text.words (left ++ (arrow.toList ++ right)) =
      Text.words left ++ ['-', '>'] :: Text.words right := by
  show Text.words (left ++ ' ' :: (['-', '>'] ++ ' ' :: right)) = _
  rw [Text.words_append_blank (by decide), Text.words_append_blank (by decide),
    Text.words_of_isWord isWord_sign]
  rfl

/-- An arrow that occurs before the last blank of the one behind the first word would have the first word
for its sign. -/
theorem not_isInfix_of_words_eq_singleton {front name : List Char} (h : Text.words front = [name])
    (hname : name ≠ ['-', '>']) : ¬arrow.toList <:+: front ++ [' ', '-', '>'] := by
  intro harrow
  obtain ⟨x, y, heq⟩ := harrow
  rw [List.append_assoc] at heq
  have hwords : Text.words x ++ ['-', '>'] :: Text.words y = [name, ['-', '>']] := by
    rw [← words_append_arrow, heq, Text.words_append_blank (by decide), h,
      Text.words_of_isWord isWord_sign]
    rfl
  -- the arrow is not at the end, so a word is left behind it
  have hlast : '>' ∈ ' ' :: y := by
    have hends : (x ++ (arrow.toList ++ y)).getLast? = some '>' := by
      rw [heq]
      simp
    have htail : (x ++ (arrow.toList ++ y)).getLast? = (' ' :: y).getLast? := by
      rw [toList_arrow]
      simp [List.getLast?_cons]
    exact List.mem_of_getLast? (htail.symm.trans hends)
  have hy : Text.words y ≠ [] := by
    intro hnil
    have hmem : '>' ∈ y := (List.mem_cons.mp hlast).resolve_left (by decide)
    exact absurd (Text.words_eq_nil_iff.mp hnil '>' hmem) (by decide)
  obtain ⟨word, more, hcons⟩ := List.exists_cons_of_ne_nil hy
  rw [hcons] at hwords
  cases hx : Text.words x with
  | nil =>
    rw [hx] at hwords
    exact hname (List.cons.inj hwords).1.symm
  | cons first others =>
    rw [hx] at hwords
    have hlength := congrArg List.length hwords
    simp at hlength
    omega

/-- Where no arrow is found but the one behind the first word, an arrow behind two words shares the last
blank of that one. -/
theorem place_eq_of_spacedArrow {left right name : List Char} {other : Nat}
    (hwords : Text.words left = [name]) (hleft : ¬arrow.toList <:+: left ++ [' ', '-', '>'])
    (hright : ¬arrow.toList <:+: right)
    (h : Text.SpacedArrow (left ++ (arrow.toList ++ right)) 2 other) : other = left.length + 3 := by
  obtain ⟨front, back, heq, hcount, rfl⟩ := h
  rcases eq_or_shares_or_isInfix heq hleft with rfl | rfl | hbehind
  · rw [hwords] at hcount
    exact absurd hcount (by simp)
  · simp
  · exact absurd hbehind hright

/-- Behind the second word there is no arrow, unless it is the last word and has blanks of its own. -/
theorem not_isInfix_of_spelledBy {front back : List Char} {p : Production}
    (hfront : (Text.words front).length = 1) (h : Production.SpelledBy (Text.words back) p)
    (hexception : ¬(Text.words back = [['-', '>']] ∧ ∃ other,
      Text.SpacedArrow (front ++ (arrow.toList ++ back)) 2 other ∧ other ≠ front.length + 3)) :
    ¬arrow.toList <:+: back := by
  intro harrow
  obtain ⟨x, y, rfl⟩ := harrow
  rw [List.append_assoc, words_append_arrow] at h
  have hsingle := eq_singleton_of_arrow_mem h (by simp)
  have hx : Text.words x = [] := by
    have hlength := congrArg List.length hsingle
    simp only [List.length_append, List.length_cons, List.length_nil] at hlength
    exact List.length_eq_zero_iff.mp (by omega)
  refine hexception ⟨?_, (front ++ (arrow.toList ++ x)).length, ⟨_, y, ?_, ?_, rfl⟩, ?_⟩
  · rw [List.append_assoc, words_append_arrow]
    exact hsingle
  · simp
  · rw [words_append_arrow, hx, List.length_append, hfront]
    rfl
  · simp

/-- **A rule line by its words.** By capitals, a line is read as a rule exactly when its first word is
the name on the left and starts with an uppercase character, its second word is an arrow with a plain
blank on either side, and the other words spell the production; except that a last word `->` which has
a plain blank on either side too, the left one being another than the one right of the first arrow, is
a second arrow. -/
theorem ofLine_uppercase_eq_ok_iff (line : List Char) (rule : Rule) :
    ofLine .uppercase line = .ok rule ↔
      ∃ ws place, Text.words line = rule.left.toList :: ['-', '>'] :: ws ∧
        StartsUppercase rule.left.toList ∧ Text.SpacedArrow line 1 place ∧
        Production.SpelledBy ws rule.right ∧
        ¬(ws = [['-', '>']] ∧ ∃ other, Text.SpacedArrow line 2 other ∧ other ≠ place + 3) := by
  rw [ofLine_eq_ok_iff]
  apply Iff.intro
  · intro h
    obtain ⟨_, _, hsides, rfl, hname, hread⟩ := h
    obtain ⟨left, right, rfl, hleft, hright, htrim, rfl⟩ := sides_eq_ok_iff.mp hsides
    obtain ⟨hword, hcapital⟩ := Classifier.takesForName_uppercase_iff.mp hname
    have hwords : Text.words left = [rule.left.toList] := by
      rw [← Text.words_trim, htrim, Text.words_of_isWord hword]
    rw [Text.words_trim, readFrom_uppercase_iff fun word hmem => Text.isWord_of_mem_words hmem]
      at hread
    refine ⟨Text.words right, left.length, ?_, hcapital, ⟨left, right, rfl, by rw [hwords]; rfl, rfl⟩,
      hread, ?_⟩
    · rw [words_append_arrow, hwords]
      rfl
    · rintro ⟨-, other, hspaced, hother⟩
      exact hother (place_eq_of_spacedArrow hwords hleft hright hspaced)
  · intro h
    obtain ⟨ws, _, hwords, hcapital, ⟨front, back, rfl, hcount, rfl⟩, hspelled, hexception⟩ := h
    have hsplit : Text.words front ++ ['-', '>'] :: Text.words back =
        rule.left.toList :: ['-', '>'] :: ws := by
      rw [← words_append_arrow]
      exact hwords
    obtain ⟨name, hfront⟩ := List.length_eq_one_iff.mp hcount
    rw [hfront] at hsplit
    obtain ⟨rfl, hrest⟩ := List.cons.inj hsplit
    obtain ⟨-, rfl⟩ := List.cons.inj hrest
    have hname : rule.left.toList ≠ ['-', '>'] := by
      intro heq
      rw [heq] at hcapital
      exact not_startsUppercase_arrow hcapital
    have hsides : sides (front ++ (arrow.toList ++ back)) = .ok (rule.left.toList, Text.trim back) :=
      sides_eq_ok_iff.mpr ⟨front, back, rfl, not_isInfix_of_words_eq_singleton hfront hname,
        not_isInfix_of_spelledBy hcount hspelled hexception, Text.trim_of_words_eq_singleton hfront, rfl⟩
    have hmem : rule.left.toList ∈ Text.words front := by simp [hfront]
    have hword : IsWord rule.left.toList := Text.isWord_of_mem_words hmem
    refine ⟨_, _, hsides, rfl, Classifier.takesForName_uppercase_iff.mpr ⟨hword, hcapital⟩, ?_⟩
    rw [Text.words_trim, readFrom_uppercase_iff fun word hmem => Text.isWord_of_mem_words hmem]
    exact hspelled

/-- The last arrow may lack a blank or share the left one; with two blanks of its own it is one too
many. -/
example :
    ofLine .uppercase "A ->  ->".toList = .ok ⟨"A", .unary "->"⟩ ∧
      ofLine .uppercase "A -> -> ".toList = .ok ⟨"A", .unary "->"⟩ ∧
      ofLine .uppercase "A ->  -> ".toList = .error .secondArrow := by
  decide +kernel

end Rule

end Chomsky
