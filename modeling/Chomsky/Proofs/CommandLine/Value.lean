import Chomsky.CommandLine.Value
import Chomsky.Proofs.Text.Numeral

/-!
# Which texts bound the number of steps

A bound is a numeral with blanks around it whose value a machine word holds. Anything else is refused,
and the refusal shows the text with its blanks, not the trimmed one.

**`stepBound_ok_iff_and_error_iff_and_eq_word`** says so for every text, and that it makes no difference
whether the numeral is read as a number, however large, and then compared with the largest word, or read
into a word from the start.

Numbers as they are written are read back by every reader that admits them (`stepBound_repr`,
`count?_repr`, `amount?_repr`).
-/

namespace Chomsky.CommandLine

variable {text : String}

theorem stepBound_eq_ok_iff {n : Nat} :
    stepBound text = .ok n ↔ Text.IsPaddedNumeral text.toList n ∧ n ≤ Text.maxWord64 := by
  rw [← Text.isNumeral_trim_iff, ← Text.numeral?_eq_some_iff, ← Text.numeralUpTo?_eq_some]
  unfold stepBound
  cases Text.numeralUpTo? Text.maxWord64 (Text.trim text.toList) with
  | none => simp
  | some m => simp

/-- Whatever is refused is shown as it was given. -/
theorem stepBound_eq_error_iff {fault : InvalidStepBound} :
    stepBound text = .error fault ↔ fault = ⟨text⟩ ∧ ∀ n, stepBound text ≠ .ok n := by
  unfold stepBound
  cases Text.numeralUpTo? Text.maxWord64 (Text.trim text.toList) with
  | none => simp [eq_comm]
  | some m => simp

/-! ## Numbers as they are written -/

theorem stepBound_repr {n : Nat} (h : n ≤ Text.maxWord64) : stepBound n.repr = .ok n := by
  have hnumeral := Text.isNumeral_repr n
  rw [stepBound_eq_ok_iff, ← Text.isNumeral_trim_iff, Text.trim_of_isWord hnumeral.isWord]
  exact ⟨hnumeral, h⟩

theorem count?_repr {n : Nat} (h : n ≤ Text.maxWord64) : count? n.repr = some n :=
  Text.numeralUpTo?_eq_some.mpr ⟨Text.numeral?_eq_some_iff.mpr (Text.isNumeral_repr n), h⟩

theorem le_of_count? {n : Nat} (h : count? text = some n) : n ≤ Text.maxWord64 :=
  (Text.numeralUpTo?_eq_some.mp h).2

theorem amount?_repr {n : Nat} (h : n ≤ Text.maxWord32) : amount? n.repr = some n := by
  have hnumeral := Text.isNumeral_repr n
  have hread : Text.numeralUpTo? Text.maxWord32 n.repr.toList = some n :=
    Text.numeralUpTo?_eq_some.mpr ⟨Text.numeral?_eq_some_iff.mpr hnumeral, h⟩
  unfold amount?
  split
  · next digits hminus =>
    -- a numeral does not start with a minus sign
    rw [hminus] at hnumeral
    cases hnumeral with
    | unsigned hne hdigits => exact absurd (hdigits '-' List.mem_cons_self) (by decide)
  · exact hread

theorem le_of_amount? {n : Nat} (h : amount? text = some n) : n ≤ Text.maxWord32 := by
  unfold amount? at h
  split at h
  · obtain ⟨-, hzero⟩ := Option.filter_eq_some_iff.mp h
    have hn : n = 0 := by simpa using hzero
    rw [hn]
    exact Nat.zero_le _
  · exact (Text.numeralUpTo?_eq_some.mp h).2

/-! ## What the kinds of values accept -/

namespace ValueKind

@[simp]
theorem accepts_path_iff {path : String} : ValueKind.path.accepts path = true ↔ path ≠ "" := by
  simp [accepts]

theorem accepts_stepBound_repr {n : Nat} (h : n ≤ Text.maxWord64) :
    ValueKind.stepBound.accepts n.repr = true := by
  rw [accepts, stepBound_repr h]
  rfl

theorem accepts_count_repr {n : Nat} (h : n ≤ Text.maxWord64) :
    ValueKind.count.accepts n.repr = true := by
  rw [accepts, count?_repr h]
  rfl

theorem accepts_amount_repr {n : Nat} (h : n ≤ Text.maxWord32) :
    ValueKind.amount.accepts n.repr = true := by
  rw [accepts, amount?_repr h]
  rfl

end ValueKind

/-! ## Bounds on the number of steps -/

/-- **The bounds are the numerals of machine words, with blanks around them.** A text that is no such
numeral is refused and shown as it was given. The numeral can be read into a word digit by digit, each
product and each sum being checked. -/
theorem stepBound_ok_iff_and_error_iff_and_eq_word (text : String) :
    (∀ n, stepBound text = .ok n ↔ Text.IsPaddedNumeral text.toList n ∧ n ≤ 2 ^ 64 - 1) ∧
    (∀ fault, stepBound text = .error fault ↔
      fault = ⟨text⟩ ∧ ¬∃ n, Text.IsPaddedNumeral text.toList n ∧ n ≤ 2 ^ 64 - 1) ∧
    stepBound text =
      match Text.word? (Text.trim text.toList) with
      | some word => .ok word.toNat
      | none => .error ⟨text⟩ := by
  have hok : ∀ n, stepBound text = .ok n ↔ Text.IsPaddedNumeral text.toList n ∧ n ≤ 2 ^ 64 - 1 :=
    fun n => stepBound_eq_ok_iff
  refine ⟨hok, fun fault => ?_, ?_⟩
  · rw [stepBound_eq_error_iff, not_exists]
    simp only [ne_eq, hok]
  · unfold stepBound
    rw [← Text.map_toNat_word?]
    cases Text.word? (Text.trim text.toList) <;> rfl

/-- The largest bound, with a sign, zeros in front and blanks around it; and the text after it. -/
example : stepBound "\t+00018446744073709551615 " = .ok (2 ^ 64 - 1) ∧
    stepBound " 18446744073709551616" = .error ⟨" 18446744073709551616"⟩ := by
  decide +kernel

end Chomsky.CommandLine
