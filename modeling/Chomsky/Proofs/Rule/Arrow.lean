import Chomsky.Proofs.Text.Words
import Chomsky.Rule.Parser

/-!
# The arrow of a rule line

The arrow is looked for from the left, and behind each arrow that was found the search goes on. Two
arrows that share a blank are therefore found as one, the left one. What is found is said by where
arrows occur, shared blanks or not:

* **`arrowParts_of_not_isInfix`**: a text where none occurs is one part.
* **`arrowParts_append_arrow`**: an arrow is found at its place if none occurs before it, that is, in
  the text up to its last blank.
* **`sides_eq_ok_iff`**: a line has the two sides of an arrow that is found at its place, if none
  occurs behind it. One that occurs there is a second arrow (`sides_eq_error_of_isInfix`).
* **`eq_or_shares_or_isInfix`**: any other arrow of the line shares the last blank of the one that was
  found, or occurs behind it.
-/

namespace Chomsky.Rule

@[simp] theorem toList_arrow : arrow.toList = [' ', '-', '>', ' '] := rfl

variable {text left right : List Char}

/-- The arrow holds two plain blanks, so it does not occur where there is one at most. -/
theorem not_isInfix_of_count_lt_two (h : text.count ' ' < 2) : ¬arrow.toList <:+: text := by
  intro harrow
  have hcount : arrow.toList.count ' ' ≤ text.count ' ' := harrow.sublist.count_le ' '
  have htwo : arrow.toList.count ' ' = 2 := by decide
  omega

/-- How a text begins, up to four characters, is settled by the first four, so everything behind the
last blank of another arrow may be cut off. -/
theorem isPrefix_cut_iff {start rest : List Char} {first : Char} (h : start.length ≤ 4) :
    start <+: first :: (rest ++ (arrow.toList ++ right)) ↔
      start <+: first :: (rest ++ [' ', '-', '>']) := by
  have hcut : first :: (rest ++ [' ', '-', '>']) <+: first :: (rest ++ (arrow.toList ++ right)) :=
    ⟨' ' :: right, by simp⟩
  apply Iff.intro
  · intro hstart
    refine List.prefix_of_prefix_length_le hstart hcut ?_
    simp only [List.length_cons, List.length_append, List.length_nil]
    omega
  · intro hstart
    exact hstart.trans hcut

theorem isPrefix_append_arrow_iff {first : Char} {rest : List Char} :
    arrow.toList <+: first :: (rest ++ (arrow.toList ++ right)) ↔
      arrow.toList <+: first :: (rest ++ [' ', '-', '>']) :=
  isPrefix_cut_iff (by simp)

/-! ## Parts -/

theorem arrowParts_cons_of_not_isPrefix {first : Char} {rest : List Char}
    (h : ¬arrow.toList <+: first :: rest) :
    arrowParts (first :: rest) = (arrowParts rest).modifyHead (first :: ·) := by
  rw [arrowParts]
  intro tail hfirst hrest
  exact h ⟨tail, by rw [hfirst, hrest]; rfl⟩

theorem arrowParts_of_not_isInfix (h : ¬arrow.toList <:+: text) : arrowParts text = [text] := by
  induction text with
  | nil => rfl
  | cons first rest ih =>
    rw [List.infix_cons_iff, not_or] at h
    rw [arrowParts_cons_of_not_isPrefix h.1, ih h.2]
    rfl

theorem arrowParts_append_arrow (h : ¬arrow.toList <:+: left ++ [' ', '-', '>'])
    (right : List Char) : arrowParts (left ++ (arrow.toList ++ right)) = left :: arrowParts right := by
  induction left with
  | nil => rfl
  | cons first rest ih =>
    rw [List.cons_append, List.infix_cons_iff, not_or] at h
    have hfirst : ¬arrow.toList <+: first :: (rest ++ (arrow.toList ++ right)) := by
      rw [isPrefix_append_arrow_iff]
      exact h.1
    rw [List.cons_append, arrowParts_cons_of_not_isPrefix hfirst, ih h.2]
    rfl

/-- If an arrow occurs at all, one of them is found at its place. -/
theorem exists_first_arrow (h : arrow.toList <:+: text) :
    ∃ left right, text = left ++ (arrow.toList ++ right) ∧
      ¬arrow.toList <:+: left ++ [' ', '-', '>'] := by
  induction text with
  | nil => exact absurd h (by decide)
  | cons first rest ih =>
    by_cases hstarts : arrow.toList <+: first :: rest
    · obtain ⟨right, hright⟩ := hstarts
      exact ⟨[], right, hright.symm, not_isInfix_of_count_lt_two (by decide)⟩
    · obtain ⟨left, right, rfl, hleft⟩ := ih ((List.infix_cons_iff.mp h).resolve_left hstarts)
      refine ⟨first :: left, right, rfl, ?_⟩
      rw [List.cons_append, List.infix_cons_iff, not_or]
      rw [isPrefix_append_arrow_iff] at hstarts
      exact ⟨hstarts, hleft⟩

theorem arrowParts_ne_nil (text : List Char) : arrowParts text ≠ [] := by
  fun_induction arrowParts text with
  | case1 => exact List.cons_ne_nil _ _
  | case2 rest ih => exact List.cons_ne_nil _ _
  | case3 first rest hnone ih => simpa using ih

/-! ## Sides -/

/-- A line that holds an arrow is not blank. -/
theorem all_isBlank_append_arrow (left right : List Char) :
    (left ++ (arrow.toList ++ right)).all Text.isBlank = false := by
  rw [List.all_eq_false]
  exact ⟨'-', by simp, by decide⟩

/-- Behind the arrow that is found first, another one is one too many. -/
theorem sides_eq_error_of_isInfix (hleft : ¬arrow.toList <:+: left ++ [' ', '-', '>'])
    (hright : arrow.toList <:+: right) :
    sides (left ++ (arrow.toList ++ right)) = .error .secondArrow := by
  obtain ⟨middle, last, rfl, hmiddle⟩ := exists_first_arrow hright
  obtain ⟨third, more, hmore⟩ := List.exists_cons_of_ne_nil (arrowParts_ne_nil last)
  rw [sides, all_isBlank_append_arrow, arrowParts_append_arrow hleft,
    arrowParts_append_arrow hmiddle, hmore]
  rfl

/-- **The sides of a line.** Nothing is said of the blank line: no arrow occurs in it. -/
theorem sides_eq_ok_iff {line l r : List Char} :
    sides line = .ok (l, r) ↔ ∃ left right, line = left ++ (arrow.toList ++ right) ∧
      ¬arrow.toList <:+: left ++ [' ', '-', '>'] ∧ ¬arrow.toList <:+: right ∧
        Text.trim left = l ∧ Text.trim right = r := by
  apply Iff.intro
  · intro h
    by_cases harrow : arrow.toList <:+: line
    · obtain ⟨left, right, rfl, hleft⟩ := exists_first_arrow harrow
      by_cases hright : arrow.toList <:+: right
      · rw [sides_eq_error_of_isInfix hleft hright] at h
        exact absurd h (by nofun)
      · rw [sides, all_isBlank_append_arrow, arrowParts_append_arrow hleft,
          arrowParts_of_not_isInfix hright] at h
        obtain ⟨hl, hr⟩ := Prod.mk.inj (Except.ok.inj h)
        exact ⟨left, right, rfl, hleft, hright, hl, hr⟩
    · unfold sides at h
      split at h
      · exact absurd h (by nofun)
      · rw [arrowParts_of_not_isInfix harrow] at h
        exact absurd h (by nofun)
  · intro h
    obtain ⟨left, right, rfl, hleft, hright, rfl, rfl⟩ := h
    rw [sides, all_isBlank_append_arrow, arrowParts_append_arrow hleft,
      arrowParts_of_not_isInfix hright]
    rfl

/-- Around the arrow of a line that has two sides, any other arrow shares its last blank or stands
behind it. -/
theorem eq_or_shares_or_isInfix {front back : List Char}
    (h : left ++ (arrow.toList ++ right) = front ++ (arrow.toList ++ back))
    (hfirst : ¬arrow.toList <:+: left ++ [' ', '-', '>']) :
    front = left ∨ front = left ++ [' ', '-', '>'] ∨ arrow.toList <:+: right := by
  rcases List.append_eq_append_iff.mp h with ⟨between, rfl, hright⟩ | ⟨between, rfl, hback⟩
  · -- the other arrow begins `between` behind the first one begins: the blanks must meet
    match between, hright with
    | [], _ => exact Or.inl (List.append_nil left)
    | [_], hright => exact absurd hright (by simp)
    | [_, _], hright => exact absurd hright (by simp)
    | [a, b, c], hright =>
      simp only [toList_arrow, List.cons_append, List.cons.injEq] at hright
      obtain ⟨rfl, rfl, rfl, -⟩ := hright
      exact Or.inr (Or.inl rfl)
    | a :: b :: c :: d :: rest, hright =>
      simp only [toList_arrow, List.cons_append, List.nil_append, List.cons.injEq] at hright
      exact Or.inr (Or.inr ⟨rest, back, by rw [hright.2.2.2.2]; simp⟩)
  · cases between with
    | nil => exact Or.inl (List.append_nil front).symm
    | cons first rest =>
      -- the other arrow begins before the first one, which is then not the first
      have hstarts : arrow.toList <+: first :: (rest ++ (arrow.toList ++ right)) := ⟨back, hback⟩
      rw [isPrefix_append_arrow_iff] at hstarts
      refine absurd ?_ hfirst
      rw [List.append_assoc]
      exact hstarts.isInfix.trans (List.suffix_append front _).isInfix

end Chomsky.Rule
