import Mathlib.Data.List.TakeWhile
import Chomsky.Text.Blank

/-!
# Words survive trimming and joining

A *word* is what blanks cut a text into: it holds a character and no blank (`isWord_of_mem_words`).
Trimming takes blanks from the ends only, so it takes nothing from a word (`trim_of_isWord`) and
leaves the words of any text as they are (`words_trim`). A text of one word is trimmed to that word
(`trim_of_words_eq_singleton`).
-/

namespace Chomsky.Text

/-- A text that blanks do not cut: not empty, and without blanks. -/
structure IsWord (text : List Char) : Prop where
  ne_nil : text ≠ []
  no_blank : ∀ c ∈ text, isBlank c = false

theorem isWord_of_mem_words {text word : List Char} (h : word ∈ words text) : IsWord word :=
  ⟨ne_nil_of_mem_words h, fun _ hc => isBlank_eq_false_of_mem_words h hc⟩

theorem words_of_isWord {word : List Char} (h : IsWord word) : words word = [word] :=
  words_of_no_blank h.ne_nil h.no_blank

theorem IsWord.singleton {word : List Char} (h : IsWord word) {c : Char} (hc : c ∈ word) :
    IsWord [c] where
  ne_nil := List.cons_ne_nil c []
  no_blank d hd := by
    rw [List.mem_singleton.mp hd]
    exact h.no_blank c hc

theorem words_pair {l r : List Char} (hl : IsWord l) (hr : IsWord r) :
    words (l ++ ' ' :: r) = [l, r] := by
  rw [words_append_blank (by decide), words_of_isWord hl, words_of_isWord hr]
  rfl

/-! ## Runs of blanks

One blank cuts a text in two; a run of them cuts it at the same place, since what stands between two
of them is no word. -/

theorem words_blanks_append {blanks : List Char} (h : ∀ c ∈ blanks, isBlank c = true)
    (text : List Char) : words (blanks ++ text) = words text := by
  induction blanks with
  | nil => rfl
  | cons c rest ih =>
    have hc : isBlank c = true := h c List.mem_cons_self
    have hrest : ∀ d ∈ rest, isBlank d = true := fun d hd => h d (List.mem_cons_of_mem c hd)
    rw [List.cons_append, words_cons_blank hc]
    exact ih hrest

theorem words_append_blanks_append {blanks : List Char} (hne : blanks ≠ [])
    (h : ∀ c ∈ blanks, isBlank c = true) (x y : List Char) :
    words (x ++ (blanks ++ y)) = words x ++ words y := by
  cases blanks with
  | nil => exact absurd rfl hne
  | cons c rest =>
    have hc : isBlank c = true := h c List.mem_cons_self
    have hrest : ∀ d ∈ rest, isBlank d = true := fun d hd => h d (List.mem_cons_of_mem c hd)
    rw [List.cons_append, words_append_blank hc, words_blanks_append hrest]

theorem words_append_blanks {blanks : List Char} (h : ∀ c ∈ blanks, isBlank c = true)
    (text : List Char) : words (text ++ blanks) = words text := by
  by_cases hne : blanks = []
  · rw [hne, List.append_nil]
  · have hwords := words_append_blanks_append hne h text []
    rwa [List.append_nil, words_nil, List.append_nil] at hwords

/-! ## Trimming -/

theorem trim_of_blanks {blanks : List Char} (h : ∀ c ∈ blanks, isBlank c = true) :
    trim blanks = [] := by
  rw [trim, List.dropWhile_eq_nil_iff.mpr h]
  rfl

@[simp] theorem words_dropWhile (text : List Char) : words (text.dropWhile isBlank) = words text := by
  induction text with
  | nil => rfl
  | cons c rest ih =>
    cases hc : isBlank c with
    | true => rw [List.dropWhile_cons_of_pos hc, ih, words_cons_blank hc]
    | false => rw [List.dropWhile_cons_of_neg (by rw [hc]; exact Bool.false_ne_true)]

/-- The same at the other end: the text is taken apart from its last character on. -/
@[simp] theorem words_reverse_dropWhile (text : List Char) :
    words (text.dropWhile isBlank).reverse = words text.reverse := by
  induction text with
  | nil => rfl
  | cons c rest ih =>
    cases hc : isBlank c with
    | true =>
      rw [List.dropWhile_cons_of_pos hc, ih, List.reverse_cons, words_append_blank hc, words_nil,
        List.append_nil]
    | false => rw [List.dropWhile_cons_of_neg (by rw [hc]; exact Bool.false_ne_true)]

@[simp] theorem words_trim (text : List Char) : words (trim text) = words text := by
  rw [trim, words_reverse_dropWhile, List.reverse_reverse, words_dropWhile]

theorem dropWhile_of_no_blank {text : List Char} (h : ∀ c ∈ text, isBlank c = false) :
    text.dropWhile isBlank = text := by
  cases text with
  | nil => rfl
  | cons c rest =>
    have hc : isBlank c = false := h c List.mem_cons_self
    rw [List.dropWhile_cons_of_neg (by rw [hc]; exact Bool.false_ne_true)]

/-- What trimming takes from a word with blanks around it is the blanks. -/
theorem trim_blanks_isWord_blanks {before word after : List Char}
    (hbefore : ∀ c ∈ before, isBlank c = true) (hword : IsWord word)
    (hafter : ∀ c ∈ after, isBlank c = true) : trim (before ++ (word ++ after)) = word := by
  have hfront : (word ++ after).dropWhile isBlank = word ++ after := by
    obtain ⟨first, rest, rfl⟩ := List.exists_cons_of_ne_nil hword.ne_nil
    have hfirst : isBlank first = false := hword.no_blank first List.mem_cons_self
    rw [List.cons_append, List.dropWhile_cons_of_neg (by rw [hfirst]; exact Bool.false_ne_true)]
  have hback : ∀ c ∈ after.reverse, isBlank c = true := by
    intro c hc
    exact hafter c (List.mem_reverse.mp hc)
  have hreverse : ∀ c ∈ word.reverse, isBlank c = false := by
    intro c hc
    exact hword.no_blank c (List.mem_reverse.mp hc)
  rw [trim, List.dropWhile_append_of_pos hbefore, hfront, List.reverse_append,
    List.dropWhile_append_of_pos hback, dropWhile_of_no_blank hreverse, List.reverse_reverse]

/-- What trimming takes from a text is blanks, at its two ends. -/
theorem exists_blanks_around_trim (text : List Char) :
    ∃ before after, text = before ++ (trim text ++ after) ∧
      (∀ c ∈ before, isBlank c = true) ∧ ∀ c ∈ after, isBlank c = true := by
  let rest := text.dropWhile isBlank
  refine ⟨text.takeWhile isBlank, (rest.reverse.takeWhile isBlank).reverse, ?_, ?_, ?_⟩
  · have hrest : trim text ++ (rest.reverse.takeWhile isBlank).reverse = rest := by
      rw [trim, ← List.reverse_append, List.takeWhile_append_dropWhile, List.reverse_reverse]
    rw [hrest, List.takeWhile_append_dropWhile]
  · intro c hc
    exact List.mem_takeWhile_imp hc
  · intro c hc
    exact List.mem_takeWhile_imp (List.mem_reverse.mp hc)

theorem trim_of_isWord {word : List Char} (h : IsWord word) : trim word = word := by
  have htrim : trim ([] ++ (word ++ [])) = word :=
    trim_blanks_isWord_blanks (by simp) h (by simp)
  rwa [List.nil_append, List.append_nil] at htrim

/-! ## The first word

A text that is not blanks alone begins, behind blanks, with its first word, and what follows is empty
or begins with a blank. So a text of one word is that word with blanks around it. -/

theorem words_isWord_append {word rest : List Char} (hword : IsWord word)
    (hrest : ∀ c ∈ rest.head?, isBlank c = true) : words (word ++ rest) = word :: words rest := by
  cases rest with
  | nil => rw [List.append_nil, words_of_isWord hword, words_nil]
  | cons c more =>
    have hc : isBlank c = true := hrest c rfl
    rw [words_append_blank hc, words_of_isWord hword, words_cons_blank hc]
    rfl

theorem exists_first_word {text : List Char} (h : ∃ c ∈ text, isBlank c = false) :
    ∃ blanks word rest, text = blanks ++ (word ++ rest) ∧ (∀ c ∈ blanks, isBlank c = true) ∧
      IsWord word ∧ ∀ c ∈ rest.head?, isBlank c = true := by
  refine ⟨text.takeWhile isBlank, (text.dropWhile isBlank).takeWhile fun c => !isBlank c,
    (text.dropWhile isBlank).dropWhile fun c => !isBlank c, ?_, ?_, ⟨?_, ?_⟩, ?_⟩
  · rw [List.takeWhile_append_dropWhile, List.takeWhile_append_dropWhile]
  · intro c hc
    exact List.mem_takeWhile_imp hc
  · cases hd : text.dropWhile isBlank with
    | nil =>
      obtain ⟨c, hc, hblank⟩ := h
      rw [List.dropWhile_eq_nil_iff.mp hd c hc] at hblank
      exact absurd hblank (by decide)
    | cons first more =>
      have hfirst : isBlank first = false := by
        have hhead := List.head?_dropWhile_not isBlank text
        rw [hd] at hhead
        simpa using hhead
      simp [hfirst]
  · intro c hc
    simpa using List.mem_takeWhile_imp hc
  · intro c hc
    have hhead := List.head?_dropWhile_not (fun c => !isBlank c) (text.dropWhile isBlank)
    rw [Option.mem_def.mp hc] at hhead
    simpa using hhead

theorem words_eq_nil_iff {text : List Char} :
    words text = [] ↔ ∀ c ∈ text, isBlank c = true := by
  apply Iff.intro
  · intro h c hc
    rw [← Bool.not_eq_false]
    intro hblank
    obtain ⟨blanks, word, rest, rfl, hblanks, hword, hrest⟩ := exists_first_word ⟨c, hc, hblank⟩
    rw [words_blanks_append hblanks, words_isWord_append hword hrest] at h
    exact absurd h (List.cons_ne_nil _ _)
  · intro h
    have hwords := words_blanks_append h []
    rwa [List.append_nil] at hwords

theorem trim_of_words_eq_singleton {text word : List Char} (h : words text = [word]) :
    trim text = word := by
  have hne : ¬∀ c ∈ text, isBlank c = true := by
    rw [← words_eq_nil_iff, h]
    exact List.cons_ne_nil _ _
  have hsome : ∃ c ∈ text, isBlank c = false := by simpa using hne
  obtain ⟨blanks, first, rest, rfl, hblanks, hfirst, hrest⟩ := exists_first_word hsome
  rw [words_blanks_append hblanks, words_isWord_append hfirst hrest] at h
  obtain ⟨rfl, hnil⟩ := List.cons.inj h
  exact trim_blanks_isWord_blanks hblanks hfirst (words_eq_nil_iff.mp hnil)

end Chomsky.Text
