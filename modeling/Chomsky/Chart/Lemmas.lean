import Chomsky.Chart.Basic

/-!
# The shape of a chart

Filling a row leaves the rows before it as they are (`Chart.rows_upTo_succ`), so a cell that was
read while the chart grew is the cell that the finished chart shows. The row of the spans of `k + 1`
tokens has a cell for each of them (`Chart.exists_row_upTo`).
-/

namespace Chomsky.Chart

/-- After the spans of up to `length` tokens, that many rows are filled. -/
@[simp] theorem size_upTo (producers : Producers) (tokens : List String) (length : Nat) :
    (upTo producers tokens length).rows.size = length := by
  fun_induction upTo producers tokens length with
  | case1 => rfl
  | case2 => rfl
  | case3 k chart ih => simp [chart, ih]

theorem rows_upTo_succ (producers : Producers) (tokens : List String) {k length : Nat}
    (h : k < length) :
    (upTo producers tokens (length + 1)).rows[k]? = (upTo producers tokens length).rows[k]? := by
  cases length with
  | zero => omega
  | succ length =>
    have hsize := size_upTo producers tokens (length + 1)
    rw [upTo, Array.getElem?_push, if_neg (by omega)]

/-- The rows that are filled stay whatever is filled later. -/
theorem rows_upTo_of_le (producers : Producers) (tokens : List String) {k length more : Nat}
    (h : k < length) (hle : length ≤ more) :
    (upTo producers tokens more).rows[k]? = (upTo producers tokens length).rows[k]? := by
  induction hle with
  | refl => rfl
  | step hle ih => rw [rows_upTo_succ producers tokens (Nat.lt_of_lt_of_le h hle), ih]

/-- The row of the spans of `k + 1` tokens has one cell for each place where they can start. -/
theorem exists_row_upTo (producers : Producers) (tokens : List String) {k length : Nat}
    (h : k < length) (hle : length ≤ tokens.length) :
    ∃ row, (upTo producers tokens length).rows[k]? = some row ∧ row.size = tokens.length - k := by
  induction length with
  | zero => omega
  | succ length ih =>
    by_cases hk : k < length
    · rw [rows_upTo_succ producers tokens hk]
      exact ih hk (by omega)
    · obtain rfl : k = length := by omega
      cases k with
      | zero => exact ⟨firstRow producers tokens, rfl, by simp [firstRow]⟩
      | succ k =>
        have hsize := size_upTo producers tokens (k + 1)
        refine ⟨nextRow producers tokens.length (upTo producers tokens (k + 1)) (k + 2), ?_, ?_⟩
        · rw [upTo, Array.getElem?_push, if_pos hsize.symm]
        · simp only [nextRow, Span.ofLength, List.size_toArray, List.length_map, List.length_range]
          omega

end Chomsky.Chart
