import Chomsky.Chart.Lemmas

/-!
# The cells of a finished chart

While a row is filled, the chart holds the rows before it and nothing else. A cell reads shorter
spans only, and the rows of those are final, so it makes no difference whether the cell is composed
from the chart as it was then or from the finished chart:

* **`cell?_ofTokens_of_length_one`**: the cell of one token holds the producers of the token.
* **`cell?_ofTokens_of_two_le`**: the cell of a longer span is composed from the cells of its parts,
  all read in the finished chart.

These two equations determine the chart, and nothing else about its filling is used later.
-/

namespace Chomsky

namespace Span

/-- The tokens of a sentence that a span covers. -/
def tokens (span : Span) (w : Sentence) : Sentence :=
  (w.drop span.start).take span.length

variable {span front back : Span} {w : Sentence}

theorem length_tokens (h : span.start + span.length ≤ w.length) :
    (span.tokens w).length = span.length := by
  rw [tokens, List.length_take, List.length_drop]
  omega

theorem tokens_of_length_one (hone : span.length = 1) (h : span.start < w.length) :
    span.tokens w = [w[span.start]] := by
  rw [tokens, hone, List.drop_eq_getElem_cons h, List.take_succ_cons, List.take_zero]

theorem tokens_eq_append_of_mem_cuts (h : (front, back) ∈ span.cuts) :
    span.tokens w = front.tokens w ++ back.tokens w := by
  obtain ⟨hstart, hpos, hlt, hback, hlength⟩ := mem_cuts.mp h
  have hsum : span.length = front.length + back.length := by omega
  rw [tokens, tokens, tokens, hsum, List.take_add, List.drop_drop, hstart, hback]

/-- Every way to write the tokens of a span as two non-empty pieces comes from a cut. -/
theorem exists_cut_of_tokens_eq_append {u v : Sentence} (h : span.start + span.length ≤ w.length)
    (huv : span.tokens w = u ++ v) (hu : u ≠ []) (hv : v ≠ []) :
    ∃ front back, (front, back) ∈ span.cuts ∧ front.tokens w = u ∧ back.tokens w = v := by
  have hupos : 0 < u.length := List.length_pos_iff.mpr hu
  have hvpos : 0 < v.length := List.length_pos_iff.mpr hv
  have hlength : u.length + v.length = span.length := by
    rw [← length_tokens h, huv, List.length_append]
  let front : Span := ⟨span.start, u.length⟩
  let back : Span := ⟨span.start + u.length, span.length - u.length⟩
  have hcut : (front, back) ∈ span.cuts :=
    mem_cuts.mpr ⟨rfl, hupos, by show u.length < span.length; omega, rfl, rfl⟩
  have hfront : (front.tokens w).length = u.length :=
    length_tokens (by show span.start + u.length ≤ w.length; omega)
  have happend : front.tokens w ++ back.tokens w = u ++ v := by
    rw [← tokens_eq_append_of_mem_cuts hcut, huv]
  obtain ⟨hu', hv'⟩ := List.append_inj happend hfront
  exact ⟨front, back, hcut, hu', hv'⟩

end Span

namespace Chart

variable {producers : Producers} {tokens : List String} {span : Span} {name : String}

/-! ## Reading cells -/

theorem mem_members {chart : Chart} :
    name ∈ chart.members span ↔ ∃ cell, chart.cell? span = some cell ∧ name ∈ cell := by
  rw [members]
  cases chart.cell? span with
  | none => simp
  | some cell => simp

/-- A name is composed when it has a pair of names found on the two sides of one cut. -/
theorem mem_compose {chart : Chart} :
    name ∈ chart.compose producers span ↔
      ∃ front back, (front, back) ∈ span.cuts ∧ ∃ b ∈ chart.members front,
        ∃ c ∈ chart.members back, name ∈ producers.of (.binary b c) := by
  simp [compose, combine, Std.ExtTreeSet.mem_ofList]

theorem compose_congr {chart chart' : Chart}
    (h : ∀ part : Span, part.length < span.length → chart.members part = chart'.members part) :
    chart.compose producers span = chart'.compose producers span := by
  apply Std.ExtTreeSet.ext_mem
  intro name
  rw [mem_compose, mem_compose]
  -- both parts of a cut are shorter, so their cells agree
  have hparts : ∀ front back, (front, back) ∈ span.cuts →
      chart.members front = chart'.members front ∧ chart.members back = chart'.members back := by
    intro front back hcut
    obtain ⟨-, hpos, hlt, -, hlength⟩ := Span.mem_cuts.mp hcut
    exact ⟨h front hlt, h back (by omega)⟩
  apply Iff.intro
  · intro hmem
    obtain ⟨front, back, hcut, b, hb, c, hc, hname⟩ := hmem
    obtain ⟨hfront, hback⟩ := hparts front back hcut
    exact ⟨front, back, hcut, b, hfront ▸ hb, c, hback ▸ hc, hname⟩
  · intro hmem
    obtain ⟨front, back, hcut, b, hb, c, hc, hname⟩ := hmem
    obtain ⟨hfront, hback⟩ := hparts front back hcut
    exact ⟨front, back, hcut, b, hfront ▸ hb, c, hback ▸ hc, hname⟩

/-! ## Cells that are final

A cell of at most `length` tokens is filled once the rows up to `length` are, and stays. -/

theorem cell?_upTo_of_le {length more : Nat} (h : span.length ≤ length) (hle : length ≤ more) :
    (upTo producers tokens more).cell? span = (upTo producers tokens length).cell? span := by
  rw [cell?, cell?]
  cases hspan : span.length with
  | zero => rfl
  | succ k =>
    have hrow : (upTo producers tokens more).rows[k]? = (upTo producers tokens length).rows[k]? :=
      rows_upTo_of_le producers tokens (by omega) hle
    simp only [hrow]

@[simp] theorem size_ofTokens : (ofTokens producers tokens).size = tokens.length :=
  size_upTo producers tokens tokens.length

/-- Only the spans inside the sentence have a cell. -/
theorem bounds_of_cell? {cell : NameSet} (h : (ofTokens producers tokens).cell? span = some cell) :
    1 ≤ span.length ∧ span.start + span.length ≤ tokens.length := by
  rw [cell?] at h
  cases hlength : span.length with
  | zero =>
    rw [hlength] at h
    exact absurd h (by nofun)
  | succ k =>
    rw [hlength] at h
    obtain ⟨row, hrow, hcell⟩ := Option.bind_eq_some_iff.mp h
    obtain ⟨hk, -⟩ := Array.getElem?_eq_some_iff.mp hrow
    have hsize : (ofTokens producers tokens).rows.size = tokens.length := size_ofTokens
    -- the row has a cell for each place where a span of this length can start
    obtain ⟨other, hother, hwidth⟩ :=
      exists_row_upTo producers tokens (hsize ▸ hk) (Nat.le_refl tokens.length)
    have hsame : other = row := Option.some.inj (hother.symm.trans hrow)
    obtain ⟨hstart, -⟩ := Array.getElem?_eq_some_iff.mp hcell
    rw [← hsame, hwidth] at hstart
    omega

/-- **The cell of one token** holds the producers of the token. -/
theorem cell?_ofTokens_of_length_one (hone : span.length = 1) (h : span.start < tokens.length) :
    (ofTokens producers tokens).cell? span = some (producers.of (.unary tokens[span.start])) := by
  have hfirst : (ofTokens producers tokens).cell? span = (upTo producers tokens 1).cell? span :=
    cell?_upTo_of_le (by omega) (by omega)
  rw [hfirst, cell?, hone]
  show (firstRow producers tokens)[span.start]? = _
  simp [firstRow, h]

/-- **The cell of a longer span** is composed from the cells of its parts. -/
theorem cell?_ofTokens_of_two_le (htwo : 2 ≤ span.length)
    (h : span.start + span.length ≤ tokens.length) :
    (ofTokens producers tokens).cell? span =
      some ((ofTokens producers tokens).compose producers span) := by
  obtain ⟨k, hk⟩ : ∃ k, span.length = k + 2 := ⟨span.length - 2, by omega⟩
  have hrow : (ofTokens producers tokens).cell? span =
      (upTo producers tokens (k + 2)).cell? span :=
    cell?_upTo_of_le (by omega) (by omega)
  have hsize : (upTo producers tokens (k + 1)).rows.size = k + 1 :=
    size_upTo producers tokens (k + 1)
  -- the row of this length is the last one that `upTo` adds
  have hlast : (upTo producers tokens (k + 2)).rows[k + 1]? =
      some (nextRow producers tokens.length (upTo producers tokens (k + 1)) (k + 2)) := by
    rw [upTo, Array.getElem?_push, if_pos hsize.symm]
  have hcell : (nextRow producers tokens.length (upTo producers tokens (k + 1)) (k + 2))[span.start]? =
      some ((upTo producers tokens (k + 1)).compose producers ⟨span.start, k + 2⟩) := by
    have hrange : (List.range (tokens.length + 1 - (k + 2)))[span.start]? = some span.start :=
      List.getElem?_range (by omega)
    simp only [nextRow, Span.ofLength, List.getElem?_toArray, List.getElem?_map, hrange,
      Option.map_some]
  have hspan : span = ⟨span.start, k + 2⟩ := by rw [← hk]
  have hfinal : (upTo producers tokens (k + 1)).compose producers span =
      (ofTokens producers tokens).compose producers span := by
    refine compose_congr fun part hpart => ?_
    have hpartCell : (upTo producers tokens tokens.length).cell? part =
        (upTo producers tokens (k + 1)).cell? part :=
      cell?_upTo_of_le (by omega) (by omega)
    rw [members, members, ofTokens, hpartCell]
  rw [hrow, cell?, hk]
  simp only [hlast, Option.bind_some, hcell]
  rw [← hspan, hfinal]

/-- The spans of at least one token that end in the sentence have a cell, and no others. -/
theorem isSome_cell?_ofTokens_iff {span : Span} :
    ((ofTokens producers tokens).cell? span).isSome ↔
      1 ≤ span.length ∧ span.start + span.length ≤ tokens.length := by
  apply Iff.intro
  · intro h
    obtain ⟨cell, hcell⟩ := Option.isSome_iff_exists.mp h
    exact bounds_of_cell? hcell
  · rintro ⟨hpos, hend⟩
    by_cases hone : span.length = 1
    · rw [cell?_ofTokens_of_length_one hone (by omega)]
      rfl
    · rw [cell?_ofTokens_of_two_le (by omega) hend]
      rfl

end Chart

end Chomsky
