/-!
# Blanks and words

A *blank* is a character with the Unicode property White_Space. Texts are trimmed and cut into
words at blanks and nowhere else, so the zero-width space, the word joiner and the information
separators are parts of words.
-/

namespace Chomsky.Text

/-- The characters with the property White_Space. -/
def isBlank (c : Char) : Bool :=
  let n := c.toNat
  (0x9 ≤ n && n ≤ 0xD) || n == 0x20 || n == 0x85 || n == 0xA0 || n == 0x1680 ||
    (0x2000 ≤ n && n ≤ 0x200A) || n == 0x2028 || n == 0x2029 || n == 0x202F || n == 0x205F ||
    n == 0x3000

/-- The text without the blanks at its two ends. -/
def trim (text : List Char) : List Char :=
  ((text.dropWhile isBlank).reverse.dropWhile isBlank).reverse

/-- The longest pieces of the text that hold no blank, in order. -/
def words (text : List Char) : List (List Char) :=
  (text.splitOnP isBlank).filter fun piece => !piece.isEmpty

/-! ## Cutting at blanks

A blank cuts a text in two, and the words of the text are the words of the two parts: that equation
carries everything else. What remains between the blanks holds a character and no blank. -/

/-- Cutting at an item that is a cut cuts the parts before and after it. -/
theorem splitOnP_append_cut {p : Char → Bool} {c : Char} (h : p c = true) (x y : List Char) :
    (x ++ c :: y).splitOnP p = x.splitOnP p ++ y.splitOnP p := by
  induction x with
  | nil => simp [List.splitOnP_cons_eq_if_modifyHead, h]
  | cons d x ih =>
    rw [List.cons_append, List.splitOnP_cons_eq_if_modifyHead,
      List.splitOnP_cons_eq_if_modifyHead, ih]
    split
    · rfl
    · obtain ⟨first, rest, hx⟩ := List.exists_cons_of_ne_nil (List.splitOnP_ne_nil p x)
      rw [hx]
      rfl

@[simp] theorem words_nil : words [] = [] := rfl

theorem words_append_blank {c : Char} (h : isBlank c = true) (x y : List Char) :
    words (x ++ c :: y) = words x ++ words y := by
  rw [words, splitOnP_append_cut h, List.filter_append]
  rfl

theorem words_cons_blank {c : Char} (h : isBlank c = true) (text : List Char) :
    words (c :: text) = words text :=
  words_append_blank h [] text

/-- A text without blanks is one word, unless it is empty. -/
theorem words_of_no_blank {text : List Char} (hne : text ≠ [])
    (h : ∀ c ∈ text, isBlank c = false) : words text = [text] := by
  rw [words, List.splitOnP_eq_singleton h]
  simp [hne]

/-- Words are never empty. -/
theorem ne_nil_of_mem_words {text word : List Char} (h : word ∈ words text) : word ≠ [] := by
  simpa [words] using (List.mem_filter.1 h).2

/-- No piece between cuts holds a cut. -/
theorem eq_false_of_mem_splitOnP {p : Char → Bool} {text piece : List Char} {c : Char}
    (h : piece ∈ text.splitOnP p) (hc : c ∈ piece) : p c = false := by
  induction text generalizing piece with
  | nil =>
    obtain rfl : piece = [] := by simpa using h
    cases hc
  | cons d text ih =>
    rw [List.splitOnP_cons_eq_if_modifyHead] at h
    split at h
    · rcases List.mem_cons.1 h with rfl | h
      · cases hc
      · exact ih h hc
    · next hd =>
      obtain ⟨first, rest, hx⟩ := List.exists_cons_of_ne_nil (List.splitOnP_ne_nil p text)
      rw [hx] at h ih
      rcases List.mem_cons.1 h with rfl | h
      · rcases List.mem_cons.1 hc with rfl | hc
        · simpa using hd
        · exact ih List.mem_cons_self hc
      · exact ih (List.mem_cons_of_mem _ h) hc

/-- Words hold no blank. -/
theorem isBlank_eq_false_of_mem_words {text word : List Char} {c : Char} (h : word ∈ words text)
    (hc : c ∈ word) : isBlank c = false :=
  eq_false_of_mem_splitOnP (List.mem_filter.1 h).1 hc

end Chomsky.Text
