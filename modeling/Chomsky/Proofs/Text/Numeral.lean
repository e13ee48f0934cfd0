import Mathlib.Data.Nat.Digits.Defs
import Chomsky.Proofs.Text.Words
import Chomsky.Text.Numeral

/-!
# What numerals stand for

Digits are read from the left, each after ten times what was read before it. What they stand for is
said apart from that, by places: the last digit counts ones, the one before it tens. The two agree:

* **`numeral?_eq_some_iff`**: a text is read as a number exactly when it is a numeral of that value.
* **`map_toNat_word?`**: the same reading on a machine word, in which every product and every sum
  must fit into 64 bits, accepts exactly the numerals whose value fits. What has been read of a
  numeral never exceeds its value, so no reading ends early without need; and leading zeros leave
  the word at zero, however many they are.
-/

namespace Chomsky.Text

/-! ## Values by places -/

/-- The number that a digit stands for. -/
def digitValue (c : Char) : Nat :=
  c.toNat - '0'.toNat

/-- The number that digits stand for by their places. -/
def placeValue (digits : List Char) : Nat :=
  Nat.ofDigits 10 (digits.reverse.map digitValue)

theorem placeValue_cons (c : Char) (rest : List Char) :
    placeValue (c :: rest) = digitValue c * 10 ^ rest.length + placeValue rest := by
  simp only [placeValue, List.reverse_cons, List.map_append, List.map_singleton,
    Nat.ofDigits_append, Nat.ofDigits_singleton, List.length_map, List.length_reverse]
  ring

theorem isDigit_iff {c : Char} : c.isDigit = true ↔ 48 ≤ c.toNat ∧ c.toNat ≤ 57 := by
  rw [Char.isDigit, Bool.and_eq_true, decide_eq_true_iff, decide_eq_true_iff, ge_iff_le,
    UInt32.le_iff_toNat_le, UInt32.le_iff_toNat_le]
  rfl

theorem digit?_eq_some_iff {c : Char} {d : Nat} :
    digit? c = some d ↔ c.isDigit = true ∧ d = digitValue c := by
  have hrange : ('0' ≤ c ∧ c ≤ '9') ↔ c.isDigit = true := by
    rw [isDigit_iff, Char.le_def, Char.le_def, UInt32.le_iff_toNat_le, UInt32.le_iff_toNat_le]
    rfl
  unfold digit?
  by_cases h : c.isDigit = true
  · rw [if_pos (hrange.mpr h)]
    simp [h, digitValue, eq_comm]
  · rw [if_neg (mt hrange.mp h)]
    simp [h]

theorem digitsFrom?_eq_some_iff {value n : Nat} {text : List Char} :
    digitsFrom? value text = some n ↔
      (∀ c ∈ text, c.isDigit = true) ∧ n = value * 10 ^ text.length + placeValue text := by
  induction text generalizing value with
  | nil =>
    have hnil : value * 10 ^ ([] : List Char).length + placeValue [] = value := by
      rw [List.length_nil, pow_zero, Nat.mul_one]
      rfl
    rw [hnil, digitsFrom?, Option.some.injEq, @eq_comm _ value n]
    simp
  | cons c rest ih =>
    have hplace : (10 * value + digitValue c) * 10 ^ rest.length + placeValue rest =
        value * 10 ^ (c :: rest).length + placeValue (c :: rest) := by
      rw [placeValue_cons, List.length_cons]
      ring
    rw [digitsFrom?, Option.bind_eq_some_iff, List.forall_mem_cons, ← hplace]
    constructor
    · rintro ⟨d, hd, hread⟩
      obtain ⟨hdigit, rfl⟩ := digit?_eq_some_iff.mp hd
      obtain ⟨hrest, hvalue⟩ := ih.mp hread
      exact ⟨⟨hdigit, hrest⟩, hvalue⟩
    · rintro ⟨⟨hdigit, hrest⟩, hvalue⟩
      exact ⟨digitValue c, digit?_eq_some_iff.mpr ⟨hdigit, rfl⟩, ih.mpr ⟨hrest, hvalue⟩⟩

/-- A text is a numeral of a value: digits, at least one, after at most one plus sign. -/
inductive IsNumeral : List Char → Nat → Prop where
  | unsigned {digits : List Char} (hne : digits ≠ []) (hdigits : ∀ c ∈ digits, c.isDigit = true) :
      IsNumeral digits (placeValue digits)
  | signed {digits : List Char} (hne : digits ≠ []) (hdigits : ∀ c ∈ digits, c.isDigit = true) :
      IsNumeral ('+' :: digits) (placeValue digits)

theorem digits?_eq_some_iff {n : Nat} {text : List Char} :
    digits? text = some n ↔
      text ≠ [] ∧ (∀ c ∈ text, c.isDigit = true) ∧ n = placeValue text := by
  cases text with
  | nil => simp [digits?]
  | cons c rest => simp [digits?, digitsFrom?_eq_some_iff]

/-- **A text is read as a number exactly when it is a numeral of it.** -/
theorem numeral?_eq_some_iff {n : Nat} {text : List Char} :
    numeral? text = some n ↔ IsNumeral text n := by
  constructor
  · intro h
    unfold numeral? at h
    split at h
    · obtain ⟨hne, hdigits, rfl⟩ := digits?_eq_some_iff.mp h
      exact .signed hne hdigits
    · obtain ⟨hne, hdigits, rfl⟩ := digits?_eq_some_iff.mp h
      exact .unsigned hne hdigits
  · intro h
    cases h with
    | signed hne hdigits => exact digits?_eq_some_iff.mpr ⟨hne, hdigits, rfl⟩
    | unsigned hne hdigits =>
      unfold numeral?
      split
      · exact absurd (hdigits '+' List.mem_cons_self) (by decide)
      · exact digits?_eq_some_iff.mpr ⟨hne, hdigits, rfl⟩

/-! ## Numbers as they are written -/

/-- Reading digits from the left, each after ten times what was read, values them by their places. -/
theorem ofDigitChars_eq (value : Nat) (digits : List Char) :
    Nat.ofDigitChars 10 digits value = value * 10 ^ digits.length + placeValue digits := by
  induction digits generalizing value with
  | nil => simp [placeValue]
  | cons c rest ih =>
    rw [Nat.ofDigitChars_cons, ih, placeValue_cons, List.length_cons]
    show (10 * value + digitValue c) * 10 ^ rest.length + placeValue rest = _
    ring

/-- A number is written as a numeral of it. -/
theorem isNumeral_repr (n : Nat) : IsNumeral n.repr.toList n := by
  have hvalue : placeValue (Nat.toDigits 10 n) = n := by
    have hread := ofDigitChars_eq 0 (Nat.toDigits 10 n)
    rw [Nat.ofDigitChars_toDigits (by decide) (by decide)] at hread
    omega
  have hnumeral : IsNumeral (Nat.toDigits 10 n) (placeValue (Nat.toDigits 10 n)) :=
    .unsigned Nat.toDigits_ne_nil fun c hc => Nat.isDigit_of_mem_toDigits (by decide) (by decide) hc
  rw [hvalue] at hnumeral
  rw [Nat.toList_repr]
  exact hnumeral

/-! ## Blanks around a numeral -/

theorem IsNumeral.isWord {n : Nat} {text : List Char} (h : IsNumeral text n) : IsWord text := by
  have hdigit : ∀ c : Char, c.isDigit = true → isBlank c = false := by
    intro c hc
    obtain ⟨hlow, hhigh⟩ := isDigit_iff.mp hc
    simp only [isBlank]
    grind
  cases h with
  | unsigned hne hdigits => exact ⟨hne, fun c hc => hdigit c (hdigits c hc)⟩
  | signed hne hdigits =>
    refine ⟨List.cons_ne_nil _ _, List.forall_mem_cons.mpr ⟨by decide, fun c hc => ?_⟩⟩
    exact hdigit c (hdigits c hc)

/-- A text is a numeral of a value with any blanks around it. -/
def IsPaddedNumeral (text : List Char) (n : Nat) : Prop :=
  ∃ before numeral after, text = before ++ (numeral ++ after) ∧
    (∀ c ∈ before, isBlank c = true) ∧ (∀ c ∈ after, isBlank c = true) ∧ IsNumeral numeral n

theorem isNumeral_trim_iff {n : Nat} {text : List Char} :
    IsNumeral (trim text) n ↔ IsPaddedNumeral text n := by
  constructor
  · intro h
    obtain ⟨before, after, htext, hbefore, hafter⟩ := exists_blanks_around_trim text
    exact ⟨before, trim text, after, htext, hbefore, hafter, h⟩
  · rintro ⟨before, numeral, after, rfl, hbefore, hafter, h⟩
    rw [trim_blanks_isWord_blanks hbefore h.isWord hafter]
    exact h

/-! ## Reading into a machine word -/

/-- The product of two words, if 64 bits hold it. -/
def mulWord? (a b : UInt64) : Option UInt64 :=
  if a.toNat * b.toNat ≤ maxWord64 then some (a * b) else none

/-- The sum of two words, if 64 bits hold it. -/
def addWord? (a b : UInt64) : Option UInt64 :=
  if a.toNat + b.toNat ≤ maxWord64 then some (a + b) else none

/-- Reads digits into a word, after digits of value `value`. -/
def wordFrom? (value : UInt64) : List Char → Option UInt64
  | [] => some value
  | c :: rest => do
    let tenfold ← mulWord? value 10
    let digit ← digit? c
    wordFrom? (← addWord? tenfold (.ofNat digit)) rest

/-- Reads a numeral into a word. -/
def word? : List Char → Option UInt64
  | [] => none
  | ['+'] => none
  | '+' :: digits => wordFrom? 0 digits
  | digits => wordFrom? 0 digits

theorem le_maxWord64_iff {n : Nat} : n ≤ maxWord64 ↔ n < UInt64.size :=
  Nat.lt_succ_iff.symm

/-- A result that is kept when 64 bits hold it is the exact result. -/
theorem keep_eq_some_iff {n : Nat} {result word : UInt64}
    (hresult : n < UInt64.size → result.toNat = n) :
    (if n ≤ maxWord64 then some result else none) = some word ↔ word.toNat = n := by
  by_cases h : n ≤ maxWord64
  · rw [if_pos h, Option.some.injEq, ← UInt64.toNat_inj, hresult (le_maxWord64_iff.mp h), eq_comm]
  · rw [if_neg h]
    exact ⟨nofun, fun hword => absurd (le_maxWord64_iff.mpr (hword ▸ word.toNat_lt)) h⟩

theorem mulWord?_eq_some_iff {a b c : UInt64} :
    mulWord? a b = some c ↔ c.toNat = a.toNat * b.toNat :=
  keep_eq_some_iff fun h => by rw [UInt64.toNat_mul, Nat.mod_eq_of_lt h]

theorem addWord?_eq_some_iff {a b c : UInt64} :
    addWord? a b = some c ↔ c.toNat = a.toNat + b.toNat :=
  keep_eq_some_iff fun h => by rw [UInt64.toNat_add, Nat.mod_eq_of_lt h]

/-- Reading digits never makes a number smaller. -/
theorem le_of_digitsFrom? {value n : Nat} {text : List Char} (h : digitsFrom? value text = some n) :
    value ≤ n := by
  obtain ⟨-, rfl⟩ := digitsFrom?_eq_some_iff.mp h
  have hpow : 1 ≤ 10 ^ text.length := Nat.one_le_pow _ _ (by decide)
  calc value = value * 1 := (Nat.mul_one value).symm
    _ ≤ value * 10 ^ text.length := Nat.mul_le_mul_left value hpow
    _ ≤ value * 10 ^ text.length + placeValue text := Nat.le_add_right _ _

theorem lt_ten_of_digit? {c : Char} {d : Nat} (h : digit? c = some d) : d < 10 := by
  obtain ⟨hdigit, rfl⟩ := digit?_eq_some_iff.mp h
  have hnine : c.toNat ≤ 57 := (isDigit_iff.mp hdigit).2
  show c.toNat - 48 < 10
  omega

/-- Digits are read into a word exactly as they are read into a number that is one. Induction on the
digits: where a product or a sum does not fit, no number that further digits make of it fits. -/
theorem wordFrom?_eq_some_iff {value word : UInt64} {text : List Char} :
    wordFrom? value text = some word ↔ digitsFrom? value.toNat text = some word.toNat := by
  induction text generalizing value with
  | nil => rw [wordFrom?, digitsFrom?, Option.some.injEq, Option.some.injEq, UInt64.toNat_inj]
  | cons c rest ih =>
    have hten : (10 : UInt64).toNat = 10 := rfl
    simp only [wordFrom?, digitsFrom?, Option.bind_eq_bind, Option.bind_eq_some_iff]
    constructor
    · rintro ⟨tenfold, hmul, d, hd, sum, hadd, hread⟩
      have hdigit : (UInt64.ofNat d).toNat = d :=
        UInt64.toNat_ofNat_of_lt' (Nat.lt_trans (lt_ten_of_digit? hd) (by decide))
      have hsum : sum.toNat = 10 * value.toNat + d := by
        rw [addWord?_eq_some_iff.mp hadd, mulWord?_eq_some_iff.mp hmul, hten, hdigit, Nat.mul_comm]
      exact ⟨d, hd, hsum ▸ ih.mp hread⟩
    · rintro ⟨d, hd, hread⟩
      have hdigit : (UInt64.ofNat d).toNat = d :=
        UInt64.toNat_ofNat_of_lt' (Nat.lt_trans (lt_ten_of_digit? hd) (by decide))
      -- what has been read so far is at most the whole number, and that is a word
      have hfits : 10 * value.toNat + d < UInt64.size :=
        Nat.lt_of_le_of_lt (le_of_digitsFrom? hread) word.toNat_lt
      have htenfold : (UInt64.ofNat (10 * value.toNat)).toNat = 10 * value.toNat :=
        UInt64.toNat_ofNat_of_lt' (by omega)
      have hsum : (UInt64.ofNat (10 * value.toNat + d)).toNat = 10 * value.toNat + d :=
        UInt64.toNat_ofNat_of_lt' hfits
      refine ⟨.ofNat (10 * value.toNat), ?_, d, hd, .ofNat (10 * value.toNat + d), ?_, ?_⟩
      · rw [mulWord?_eq_some_iff, htenfold, hten, Nat.mul_comm]
      · rw [addWord?_eq_some_iff, hsum, htenfold, hdigit]
      · rw [ih, hsum]
        exact hread

/-- **A numeral is read into a word exactly when 64 bits hold its value.** -/
theorem word?_eq_some_iff {word : UInt64} {text : List Char} :
    word? text = some word ↔ numeral? text = some word.toNat := by
  unfold word?
  split
  · simp [numeral?, digits?]
  · simp [numeral?, digits?]
  · next digits hne =>
    cases digits with
    | nil => simp at hne
    | cons c rest => exact wordFrom?_eq_some_iff
  · next hne _ hplus =>
    have hnumeral : numeral? text = digits? text := by
      unfold numeral?
      split
      · exact (hplus _ rfl).elim
      · rfl
    rw [hnumeral]
    cases text with
    | nil => exact absurd rfl hne
    | cons c rest => exact wordFrom?_eq_some_iff

/-- **Reading into a word and bounding a number afterwards come to the same.** -/
theorem map_toNat_word? (text : List Char) :
    (word? text).map UInt64.toNat = numeralUpTo? maxWord64 text := by
  apply Option.ext
  intro n
  rw [Option.map_eq_some_iff, numeralUpTo?_eq_some]
  constructor
  · rintro ⟨word, hword, rfl⟩
    exact ⟨word?_eq_some_iff.mp hword, le_maxWord64_iff.mpr word.toNat_lt⟩
  · rintro ⟨hnumeral, hle⟩
    have hword : (UInt64.ofNat n).toNat = n := UInt64.toNat_ofNat_of_lt' (le_maxWord64_iff.mp hle)
    exact ⟨.ofNat n, word?_eq_some_iff.mpr (hword.symm ▸ hnumeral), hword⟩

end Chomsky.Text
