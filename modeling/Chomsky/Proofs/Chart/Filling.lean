import Chomsky.Chart.Filling
import Chomsky.Proofs.Chart.Membership
import Mathlib.Data.List.Nodup

/-!
# A chart is filled safely, and each cell once

Filling in place could go wrong at every access, since rows are shorter the later they start. It
never does, and it ends with the chart that is built row by row:

* **`exists_foldlM_eq_ok`**: a loop ends without a mishap, with an invariant, when each of its steps
  keeps the invariant and ends without a mishap.
* **`Triangle.Shaped`**: there is a slot where the two numbers together are below the number of
  tokens. Every bound on an access comes down to this.
* **`exists_gather_eq_ok`**: what is found for a cell is composed from final cells.
* **`Reached`**: the invariant of the loops. The cells that have been written are final, and each was
  found in shorter cells that were final. `Reached.add` keeps it when one more cell is written.
* **`exists_fill_decides`**: the cells that are filled hold the names that derive their spans, and the
  recogniser's verdict is read off the cell of the whole sentence.
* **`fill_eq_ok_and_cells_written_once`**: filling ends without a mishap, in the chart that is built row
  by row, and writes each cell of two tokens or more once.
-/

namespace Chomsky

/-- **A loop that keeps an invariant** ends without an error when none of its steps has one. The
invariant speaks of the number of steps done. -/
theorem exists_foldlM_eq_ok {α β ε : Type} (step : β → α → Except ε β) (xs : List α) (start : β)
    (Inv : Nat → β → Prop) (hstart : Inv 0 start)
    (hstep : ∀ i (h : i < xs.length) b, Inv i b →
      ∃ next, step b xs[i] = .ok next ∧ Inv (i + 1) next) :
    ∃ stop, xs.foldlM step start = .ok stop ∧ Inv xs.length stop := by
  induction xs generalizing Inv start with
  | nil => exact ⟨start, rfl, hstart⟩
  | cons x xs ih =>
    obtain ⟨next, hnext, hinv⟩ := hstep 0 (by simp) start hstart
    obtain ⟨stop, hstop, hend⟩ := ih next (fun i => Inv (i + 1)) hinv fun i h b hb =>
      hstep (i + 1) (by simpa using h) b hb
    refine ⟨stop, ?_, hend⟩
    rw [List.foldlM_cons, show step start x = .ok next from hnext]
    exact hstop

/-- A loop over the numbers below `n`. -/
theorem exists_foldlM_range_eq_ok {β ε : Type} (step : β → Nat → Except ε β) (n : Nat) (start : β)
    (Inv : Nat → β → Prop) (hstart : Inv 0 start)
    (hstep : ∀ i < n, ∀ b, Inv i b → ∃ next, step b i = .ok next ∧ Inv (i + 1) next) :
    ∃ stop, (List.range n).foldlM step start = .ok stop ∧ Inv n stop := by
  obtain ⟨stop, hstop, hinv⟩ := exists_foldlM_eq_ok step (List.range n) start Inv hstart
    fun i h b hb => by
      rw [List.getElem_range]
      exact hstep i (by simpa using h) b hb
  rw [List.length_range] at hinv
  exact ⟨stop, hstop, hinv⟩

namespace Span

variable {n : Nat} {span : Span}

@[simp] theorem mem_composite : span ∈ composite n ↔ 2 ≤ span.length ∧ span.start + span.length ≤ n := by
  rw [composite, List.mem_flatMap]
  apply Iff.intro
  · rintro ⟨k, -, hspan⟩
    obtain ⟨hlength, hend⟩ := mem_ofLength.mp hspan
    omega
  · rintro ⟨htwo, hend⟩
    exact ⟨span.length - 2, List.mem_range.mpr (by omega), mem_ofLength.mpr (by omega)⟩

theorem nodup_composite (n : Nat) : (composite n).Nodup := by
  refine List.nodup_flatMap.mpr ⟨fun k _ => ?_, ?_⟩
  · exact List.nodup_range.map fun _ _ h => congrArg Span.start h
  · -- spans of different lengths are different
    refine List.nodup_range.imp fun {k l} hne span hk hl => hne ?_
    have hk' : span.length = k + 2 := (mem_ofLength.mp hk).1
    have hl' : span.length = l + 2 := (mem_ofLength.mp hl).1
    omega

/-- The cuts of a span, one more at a time. -/
theorem take_succ_cuts {k : Nat} (hk : k < span.length - 1) :
    span.cuts.take (k + 1) = span.cuts.take k ++
      [(⟨span.start, k + 1⟩, ⟨span.start + (k + 1), span.length - (k + 1)⟩)] := by
  rw [List.take_succ_eq_append_getElem (by simpa [cuts] using hk)]
  simp [cuts]

@[simp] theorem length_ofLength (n length : Nat) : (ofLength n length).length = n + 1 - length := by
  rw [ofLength, List.length_map, List.length_range]

theorem take_succ_ofLength {length start : Nat} (h : start < n + 1 - length) :
    (ofLength n length).take (start + 1) = (ofLength n length).take start ++ [⟨start, length⟩] := by
  rw [List.take_succ_eq_append_getElem (by rwa [length_ofLength])]
  simp [ofLength]

end Span

namespace Chart

variable {producers : Producers} {tokens : List String}

theorem minus_of_le {a b : Nat} (h : b ≤ a) : minus a b = .ok (a - b) := if_pos h

namespace Triangle

variable {n : Nat} {t : Triangle}

theorem cell?_of_length_pos {span : Span} (h : 1 ≤ span.length) :
    t.cell? span = t.slot? span.start (span.length - 1) := by
  rw [cell?, minus_of_le h]
  rfl

theorem cell?_of_length_zero {span : Span} (h : span.length = 0) : t.cell? span = none := by
  rw [cell?, h]
  rfl

theorem read_of_slot? {start column : Nat} {names : NameSet} (h : t.slot? start column = some names) :
    t.read start column = .ok ⟨⟨start, column + 1⟩, names⟩ := by
  rw [read, h]

/-! ## The slots of a triangle -/

/-- The rows of a sentence of `n` tokens: one for each token, and each ends where the sentence does. -/
structure Shaped (n : Nat) (t : Triangle) : Prop where
  size_eq : t.size = n
  isSome_slot?_iff : ∀ start column, (t.slot? start column).isSome ↔ start + column < n

theorem Shaped.exists_slot (h : Shaped n t) {start column : Nat} (hlt : start + column < n) :
    ∃ names, t.slot? start column = some names :=
  Option.isSome_iff_exists.mp ((h.isSome_slot?_iff start column).mpr hlt)

/-- A slot of a row is written, and no other changes. -/
theorem slot?_modify {start column : Nat} {row : Array NameSet} (hrow : t.rows[start]? = some row)
    (hcolumn : column < row.size) (names : NameSet) (i j : Nat) :
    Triangle.slot? ⟨t.rows.modify start fun row => row.setIfInBounds column names⟩ i j =
      if start = i ∧ column = j then some names else t.slot? i j := by
  show ((t.rows.modify start _)[i]?.bind fun row => row[j]?) = _
  rw [Array.getElem?_modify]
  by_cases hi : start = i
  · subst hi
    by_cases hj : column = j
    · subst hj
      simp [hrow, hcolumn]
    · simp [hrow, hj, slot?, Array.getElem?_setIfInBounds_ne]
  · simp [hi, slot?]

/-- Where there is a slot, writing it succeeds and keeps the shape. -/
theorem exists_put_eq_ok (h : Shaped n t) {start column : Nat} (hlt : start + column < n)
    (names : NameSet) :
    ∃ t', t.put start column names = .ok t' ∧ Shaped n t' ∧
      ∀ i j, t'.slot? i j = if start = i ∧ column = j then some names else t.slot? i j := by
  obtain ⟨old, hold⟩ := h.exists_slot hlt
  obtain ⟨row, hrow, hcolumn⟩ := Option.bind_eq_some_iff.mp hold
  obtain ⟨hsize, -⟩ := Array.getElem?_eq_some_iff.mp hcolumn
  have hslot := slot?_modify hrow hsize names
  refine ⟨⟨t.rows.modify start fun row => row.setIfInBounds column names⟩, by rw [put, hold],
    ⟨?_, fun i j => ?_⟩, hslot⟩
  · show (t.rows.modify start _).size = n
    rw [Array.size_modify]
    exact h.size_eq
  · rw [hslot]
    by_cases hsame : start = i ∧ column = j
    · obtain ⟨rfl, rfl⟩ := hsame
      simp [hlt]
    · rw [if_neg hsame, h.isSome_slot?_iff]

/-- The first rows of the empty cells of a sentence. -/
def BlankRows (n count : Nat) (rows : Array (Array NameSet)) : Prop :=
  rows.size = count ∧ ∀ start < count, rows[start]? = some (Array.replicate (n - start) ∅)

theorem exists_addBlankRow_eq_ok {start : Nat} {rows : Array (Array NameSet)} (hlt : start < n)
    (h : BlankRows n start rows) :
    ∃ rows', addBlankRow n rows start = .ok rows' ∧ BlankRows n (start + 1) rows' := by
  obtain ⟨hsize, hrow⟩ := h
  refine ⟨rows.push (Array.replicate (n - start) ∅), ?_, by simp [hsize], fun i hi => ?_⟩
  · rw [addBlankRow, minus_of_le (by omega)]
    rfl
  · rw [Array.getElem?_push, hsize]
    by_cases hlast : i = start
    · rw [if_pos hlast, hlast]
    · rw [if_neg hlast, hrow i (by omega)]

theorem BlankRows.slot?_eq {rows : Array (Array NameSet)} (h : BlankRows n n rows)
    (start column : Nat) :
    Triangle.slot? ⟨rows⟩ start column = if start + column < n then some ∅ else none := by
  obtain ⟨hsize, hrow⟩ := h
  by_cases hstart : start < n
  · have hcolumn : column < n - start ↔ start + column < n := by omega
    simp [slot?, hrow start hstart, Array.getElem?_replicate, hcolumn]
  · have hnone : rows[start]? = none := Array.getElem?_eq_none (by omega)
    rw [slot?, hnone, if_neg (by omega)]
    rfl

/-- The empty cells of a sentence are made without a mishap. -/
theorem exists_blank_eq_ok (n : Nat) :
    ∃ t, blank n = .ok t ∧ Shaped n t ∧
      ∀ start column, start + column < n → t.slot? start column = some ∅ := by
  obtain ⟨rows, hrows, hblank⟩ := exists_foldlM_range_eq_ok (addBlankRow n) n #[] (BlankRows n)
    ⟨rfl, by omega⟩ fun start hlt rows h => exists_addBlankRow_eq_ok hlt h
  refine ⟨⟨rows⟩, by rw [blank, hrows]; rfl, ⟨hblank.1, fun start column => ?_⟩, ?_⟩
  · rw [hblank.slot?_eq]
    by_cases h : start + column < n
    · simp [h]
    · simp [h]
  · intro start column h
    rw [hblank.slot?_eq, if_pos h]

/-! ## The cells of the tokens -/

/-- The cells of the first `count` tokens hold what they will hold, the others nothing yet. -/
structure Placed (producers : Producers) (tokens : List String) (count : Nat) (t : Triangle) :
    Prop where
  shaped : Shaped tokens.length t
  slot?_eq : ∀ i (h : i < tokens.length),
    t.slot? i 0 = some (if i < count then producers.of (.unary tokens[i]) else ∅)

theorem exists_placeToken_eq_ok {count : Nat} (h : Placed producers tokens count t)
    (hlt : count < tokens.length) :
    ∃ t', placeToken producers t (tokens[count], count) = .ok t' ∧
      Placed producers tokens (count + 1) t' := by
  have hold : t.slot? count 0 = some ∅ := by
    rw [h.slot?_eq count hlt, if_neg (by omega)]
  rw [placeToken]
  cases hnames : producers.of? (.unary tokens[count]) with
  | none =>
    refine ⟨t, rfl, h.shaped, fun i hi => ?_⟩
    rw [h.slot?_eq i hi]
    by_cases hlast : i = count
    · subst hlast
      simp [Producers.of, hnames]
    · have hcount : i < count + 1 ↔ i < count := by omega
      simp [hcount]
  | some names =>
    obtain ⟨t', hput, hshaped, hslot⟩ := exists_put_eq_ok h.shaped
      (show count + 0 < tokens.length from hlt) ((∅ : NameSet) ∪ names)
    refine ⟨t', ?_, hshaped, fun i hi => ?_⟩
    · show ((t.read count 0 >>= fun reading => t.put count 0 (reading.names ∪ names)) = _)
      rw [read_of_slot? hold]
      exact hput
    · rw [hslot, h.slot?_eq i hi]
      by_cases hlast : count = i
      · subst hlast
        have hempty : (∅ : NameSet) ∪ names = names := by
          apply Std.ExtTreeSet.ext_mem
          simp
        simp [Producers.of, hnames, hempty]
      · have hcount : i < count + 1 ↔ i < count := by omega
        simp [hlast, hcount]

/-- The tokens are placed without a mishap. -/
theorem exists_foldlM_placeToken_eq_ok (producers : Producers) (tokens : List String) :
    ∃ blank t, Triangle.blank tokens.length = .ok blank ∧
      tokens.zipIdx.foldlM (placeToken producers) blank = .ok t ∧
      Placed producers tokens tokens.length t := by
  obtain ⟨blank, hblank, hshaped, hempty⟩ := exists_blank_eq_ok tokens.length
  obtain ⟨t, ht, hplaced⟩ := exists_foldlM_eq_ok (placeToken producers) tokens.zipIdx blank
    (Placed producers tokens)
    ⟨hshaped, fun i hi => by simpa using hempty i 0 (by omega)⟩
    fun i hi t h => by
      rw [List.getElem_zipIdx, Nat.zero_add]
      exact exists_placeToken_eq_ok h (by simpa using hi)
  rw [List.length_zipIdx] at hplaced
  exact ⟨blank, t, hblank, ht, hplaced⟩

/-- A write shows in the cell of one span. -/
theorem cell?_of_slot?_eq {t' : Triangle} {start column : Nat} {names : NameSet}
    (h : ∀ i j, t'.slot? i j = if start = i ∧ column = j then some names else t.slot? i j)
    (span : Span) :
    t'.cell? span = if span = ⟨start, column + 1⟩ then some names else t.cell? span := by
  obtain ⟨i, length⟩ := span
  by_cases hpos : 1 ≤ length
  · have hsame : (⟨i, length⟩ : Span) = ⟨start, column + 1⟩ ↔ start = i ∧ column = length - 1 := by
      rw [Span.mk.injEq]
      omega
    simp only [cell?_of_length_pos (show 1 ≤ (⟨i, length⟩ : Span).length from hpos), h, hsame]
  · have hne : (⟨i, length⟩ : Span) ≠ ⟨start, column + 1⟩ := by
      rw [Ne, Span.mk.injEq]
      omega
    have hzero : length = 0 := by omega
    rw [if_neg hne, cell?_of_length_zero hzero, cell?_of_length_zero hzero]

theorem Shaped.isSome_cell?_iff {span : Span} (h : Shaped n t) :
    (t.cell? span).isSome ↔ 1 ≤ span.length ∧ span.start + span.length ≤ n := by
  by_cases hpos : 1 ≤ span.length
  · rw [cell?_of_length_pos hpos, h.isSome_slot?_iff]
    omega
  · rw [cell?_of_length_zero (by omega)]
    simp [hpos]

end Triangle

/-! ## Cells read for a longer one -/

theorem members_of_cell? {chart : Chart} {span : Span} {names : NameSet}
    (h : chart.cell? span = some names) : chart.members span = names.toList := by
  rw [members, h]
  rfl

/-- For a cell, both parts of each cut were read, and found as they are in a chart. -/
structure Written.FoundIn (chart : Chart) (written : Written) : Prop where
  spans_eq : written.readings.map (·.span) =
    written.span.cuts.flatMap fun (front, back) => [front, back]
  cell?_eq : ∀ reading ∈ written.readings, chart.cell? reading.span = some reading.names

/-- The parts of a cut are shorter than the span that is cut. -/
theorem Written.FoundIn.length_lt {chart : Chart} {written : Written} (h : written.FoundIn chart)
    {reading : Reading} (hreading : reading ∈ written.readings) :
    reading.span.length < written.span.length := by
  have hspan : reading.span ∈ written.readings.map (·.span) := List.mem_map_of_mem hreading
  rw [h.spans_eq] at hspan
  obtain ⟨⟨front, back⟩, hcut, hpart⟩ := List.mem_flatMap.mp hspan
  obtain ⟨-, hpos, hlt, -, hlength⟩ := Span.mem_cuts.mp hcut
  rcases List.mem_pair.mp hpart with hfront | hback
  · rw [hfront]
    exact hlt
  · rw [hback]
    omega

/-- What the first `count` cuts of a span give, all of it found as it is in the end. -/
structure Gathered (producers : Producers) (tokens : List String) (span : Span) (count : Nat)
    (g : Gathering) : Prop where
  names_eq : g.names = .ofList ((span.cuts.take count).flatMap fun (front, back) =>
    combine producers ((ofTokens producers tokens).members front)
      ((ofTokens producers tokens).members back))
  spans_eq : g.readings.map (·.span) =
    (span.cuts.take count).flatMap fun (front, back) => [front, back]
  cell?_eq : ∀ reading ∈ g.readings,
    (ofTokens producers tokens).cell? reading.span = some reading.names

/-- One more cut is gathered from what the chart holds for its parts. -/
theorem Gathered.add {span : Span} {k : Nat} {g : Gathering} {b c : NameSet}
    (h : Gathered producers tokens span k g) (hk : k < span.length - 1)
    (hfront : (ofTokens producers tokens).cell? ⟨span.start, k + 1⟩ = some b)
    (hback : (ofTokens producers tokens).cell? ⟨span.start + (k + 1), span.length - (k + 1)⟩ =
      some c) :
    Gathered producers tokens span (k + 1)
      ⟨g.names.insertMany (combine producers b.toList c.toList),
        g.readings ++ [⟨⟨span.start, k + 1⟩, b⟩,
          ⟨⟨span.start + (k + 1), span.length - (k + 1)⟩, c⟩]⟩ := by
  refine ⟨?_, ?_, fun reading hreading => ?_⟩
  · show g.names.insertMany _ = _
    rw [h.names_eq, Span.take_succ_cuts hk, List.flatMap_append,
      Std.ExtTreeSet.ofList_eq_insertMany_empty, Std.ExtTreeSet.ofList_eq_insertMany_empty,
      Std.ExtTreeSet.insertMany_append]
    simp [members_of_cell? hfront, members_of_cell? hback]
  · rw [List.map_append, h.spans_eq, Span.take_succ_cuts hk, List.flatMap_append,
      List.flatMap_singleton]
    rfl
  · rcases List.mem_append.mp hreading with hold | hnew
    · exact h.cell?_eq reading hold
    · rcases List.mem_pair.mp hnew with rfl | rfl
      · exact hfront
      · exact hback

section

variable {t : Triangle} {start length : Nat}

theorem gatherCut_of_slot? {split : Nat} {b c : NameSet} (g : Gathering)
    (hsplit : split < length - 1) (hfront : t.slot? start split = some b)
    (hback : t.slot? (start + split + 1) (length - split - 2) = some c) :
    gatherCut producers t start length g split =
      .ok ⟨g.names.insertMany (combine producers b.toList c.toList),
        g.readings ++ [⟨⟨start, split + 1⟩, b⟩,
          ⟨⟨start + (split + 1), length - (split + 1)⟩, c⟩]⟩ := by
  have hlength : length - split - 2 + 1 = length - (split + 1) := by omega
  rw [gatherCut, Triangle.read_of_slot? hfront, minus_of_le (by omega)]
  show (minus (length - split) 2 >>= fun column =>
    t.read (start + split + 1) column >>= fun reading => _) = _
  rw [minus_of_le (by omega)]
  show (t.read (start + split + 1) (length - split - 2) >>= fun reading => _) = _
  rw [Triangle.read_of_slot? hback, hlength]
  rfl

/-- Both parts of a cut are in the triangle, and what they held when they were read is final. -/
theorem exists_gatherCut_eq_ok (hshaped : t.Shaped tokens.length)
    (hfinal : ∀ part : Span, part.length < length →
      t.cell? part = (ofTokens producers tokens).cell? part)
    (hend : start + length ≤ tokens.length) {split : Nat} (hsplit : split < length - 1)
    {g : Gathering} (h : Gathered producers tokens ⟨start, length⟩ split g) :
    ∃ g', gatherCut producers t start length g split = .ok g' ∧
      Gathered producers tokens ⟨start, length⟩ (split + 1) g' := by
  obtain ⟨b, hb⟩ := hshaped.exists_slot (show start + split < tokens.length by omega)
  obtain ⟨c, hc⟩ := hshaped.exists_slot
    (show start + split + 1 + (length - split - 2) < tokens.length by omega)
  have hfront : (ofTokens producers tokens).cell? ⟨start, split + 1⟩ = some b := by
    rw [← hfinal _ (show split + 1 < length by omega),
      Triangle.cell?_of_length_pos (show 1 ≤ split + 1 by omega)]
    exact hb
  have hback : (ofTokens producers tokens).cell? ⟨start + (split + 1), length - (split + 1)⟩ =
      some c := by
    -- the two ways to count the tokens of the back
    have hcolumn : length - (split + 1) - 1 = length - split - 2 := by omega
    rw [← hfinal _ (show length - (split + 1) < length by omega),
      Triangle.cell?_of_length_pos (show 1 ≤ length - (split + 1) by omega)]
    show t.slot? (start + (split + 1)) (length - (split + 1) - 1) = some c
    rw [hcolumn]
    exact hc
  exact ⟨_, gatherCut_of_slot? g hsplit hb hc, h.add hsplit hfront hback⟩

/-- **What is found for a cell** is composed from the finished chart. -/
theorem exists_gather_eq_ok (hshaped : t.Shaped tokens.length)
    (hfinal : ∀ part : Span, part.length < length →
      t.cell? part = (ofTokens producers tokens).cell? part)
    (hpos : 1 ≤ length) (hend : start + length ≤ tokens.length) :
    ∃ g, gather producers t start length = .ok g ∧
      g.names = (ofTokens producers tokens).compose producers ⟨start, length⟩ ∧
      Written.FoundIn (ofTokens producers tokens) ⟨⟨start, length⟩, g.readings⟩ := by
  obtain ⟨g, hg, hnames, hspans, hfound⟩ := exists_foldlM_range_eq_ok
    (gatherCut producers t start length) (length - 1) ⟨∅, []⟩
    (Gathered producers tokens ⟨start, length⟩) ⟨by simp, by simp, by simp⟩
    fun split hsplit g h => exists_gatherCut_eq_ok hshaped hfinal hend hsplit h
  have hcuts : (Span.cuts ⟨start, length⟩).length = length - 1 := by simp [Span.cuts]
  rw [List.take_of_length_le (by omega)] at hnames hspans
  refine ⟨g, ?_, hnames, ⟨hspans, hfound⟩⟩
  rw [gather, minus_of_le hpos]
  exact hg

end

/-! ## All cells -/

/-- What holds when the cells of some spans have been written, and those of the tokens. -/
structure Reached (producers : Producers) (tokens : List String) (done : List Span) (f : Filling) :
    Prop where
  shaped : f.triangle.Shaped tokens.length
  final : ∀ span, (span ∈ Span.composite tokens.length → span ∈ done) →
    f.triangle.cell? span = (ofTokens producers tokens).cell? span
  spans_eq : f.log.map (·.span) = done
  found : ∀ written ∈ f.log, written.FoundIn (ofTokens producers tokens)

/-- When the tokens are placed, every cell is final but those of two tokens or more. What lies outside
the sentence counts as final: it has no cell, then or later. -/
theorem reached_of_placed {t : Triangle} (h : t.Placed producers tokens tokens.length) :
    Reached producers tokens [] ⟨t, []⟩ := by
  refine ⟨h.shaped, fun span hspan => ?_, rfl, by simp⟩
  show t.cell? span = _
  by_cases hin : 1 ≤ span.length ∧ span.start + span.length ≤ tokens.length
  · have hnot : ¬ 2 ≤ span.length := fun htwo =>
      absurd (hspan (Span.mem_composite.mpr ⟨htwo, hin.2⟩)) List.not_mem_nil
    have hone : span.length = 1 := by omega
    have hstart : span.start < tokens.length := by omega
    rw [Triangle.cell?_of_length_pos hin.1, hone, cell?_ofTokens_of_length_one hone hstart,
      h.slot?_eq span.start hstart, if_pos hstart]
  · have hnone : t.cell? span = none := by
      rw [← Option.not_isSome_iff_eq_none, h.shaped.isSome_cell?_iff]
      exact hin
    rw [hnone, eq_comm, ← Option.not_isSome_iff_eq_none, isSome_cell?_ofTokens_iff]
    exact hin

variable {done : List Span} {f : Filling} {length : Nat}

/-- When all cells have been written, the triangle is the chart. -/
theorem Reached.cell?_eq (h : Reached producers tokens (Span.composite tokens.length) f) (span : Span) :
    f.triangle.cell? span = (ofTokens producers tokens).cell? span :=
  h.final span id

/-- One more cell is final when what is written there was gathered from final cells. -/
theorem Reached.add (h : Reached producers tokens done f) {span : Span} {t : Triangle} {g : Gathering}
    (hin : span ∈ Span.composite tokens.length) (hshaped : t.Shaped tokens.length)
    (hcell : ∀ other, t.cell? other =
      if other = span then some g.names else f.triangle.cell? other)
    (hnames : g.names = (ofTokens producers tokens).compose producers span)
    (hfound : Written.FoundIn (ofTokens producers tokens) ⟨span, g.readings⟩) :
    Reached producers tokens (done ++ [span]) ⟨t, f.log ++ [⟨span, g.readings⟩]⟩ := by
  obtain ⟨htwo, hend⟩ := Span.mem_composite.mp hin
  refine ⟨hshaped, fun other hdone => ?_, ?_, fun written hwritten => ?_⟩
  · show t.cell? other = _
    rw [hcell]
    by_cases hlast : other = span
    · rw [if_pos hlast, hlast, cell?_ofTokens_of_two_le htwo hend, hnames]
    · rw [if_neg hlast]
      refine h.final other fun hother => ?_
      rcases List.mem_append.mp (hdone hother) with hold | hnew
      · exact hold
      · exact absurd (List.mem_singleton.mp hnew) hlast
  · rw [List.map_append, h.spans_eq]
    rfl
  · rcases List.mem_append.mp hwritten with hold | hnew
    · exact h.found written hold
    · rw [List.mem_singleton.mp hnew]
      exact hfound

/-- A cell is filled safely when all shorter ones have been, and is final then. -/
theorem exists_fillCell_eq_ok (h : Reached producers tokens done f) {start : Nat}
    (htwo : 2 ≤ length) (hend : start + length ≤ tokens.length)
    (hshorter : ∀ part ∈ Span.composite tokens.length, part.length < length → part ∈ done) :
    ∃ f', fillCell producers length f start = .ok f' ∧
      Reached producers tokens (done ++ [⟨start, length⟩]) f' := by
  obtain ⟨g, hg, hnames, hfound⟩ := exists_gather_eq_ok h.shaped
    (fun part hpart => h.final part fun hin => hshorter part hin hpart) (by omega) hend
  obtain ⟨t, hput, hshaped, hslot⟩ := Triangle.exists_put_eq_ok h.shaped
    (show start + (length - 1) < tokens.length by omega) g.names
  have hspan : (⟨start, length - 1 + 1⟩ : Span) = ⟨start, length⟩ := by
    rw [Nat.sub_add_cancel (by omega)]
  have hcell := Triangle.cell?_of_slot?_eq hslot
  rw [hspan] at hcell
  refine ⟨⟨t, f.log ++ [⟨⟨start, length⟩, g.readings⟩]⟩, ?_,
    h.add (Span.mem_composite.mpr ⟨htwo, hend⟩) hshaped hcell hnames hfound⟩
  rw [fillCell, hg, minus_of_le (by omega)]
  show f.write start (length - 1) g = _
  rw [Filling.write, hput, hspan]
  rfl

/-- The cells of one length are filled safely when all shorter ones have been. -/
theorem exists_fillLength_eq_ok (h : Reached producers tokens done f) (htwo : 2 ≤ length)
    (hle : length ≤ tokens.length)
    (hshorter : ∀ part ∈ Span.composite tokens.length, part.length < length → part ∈ done) :
    ∃ f', fillLength producers tokens.length f length = .ok f' ∧
      Reached producers tokens (done ++ Span.ofLength tokens.length length) f' := by
  have hcount : (Span.ofLength tokens.length length).length = tokens.length - length + 1 := by
    rw [Span.length_ofLength]
    omega
  obtain ⟨f', hf', hreached⟩ := exists_foldlM_range_eq_ok
    (fillCell producers length) (tokens.length - length + 1) f
    (fun i => Reached producers tokens (done ++ (Span.ofLength tokens.length length).take i))
    (by simpa using h) (by
      intro start hstart f h
      rw [Span.take_succ_ofLength (by omega), ← List.append_assoc]
      exact exists_fillCell_eq_ok h htwo (by omega) fun part hin hpart =>
        List.mem_append.mpr (.inl (hshorter part hin hpart)))
  refine ⟨f', ?_, ?_⟩
  · rw [fillLength, minus_of_le hle]
    exact hf'
  · rw [List.take_of_length_le (by omega)] at hreached
    exact hreached

/-- **A sentence is filled safely**, and all its cells are final in the end. -/
theorem exists_fill_eq_ok (producers : Producers) (tokens : List String) :
    ∃ f, fill producers tokens = .ok f ∧
      Reached producers tokens (Span.composite tokens.length) f := by
  obtain ⟨blank, t, hblank, ht, hplaced⟩ :=
    Triangle.exists_foldlM_placeToken_eq_ok producers tokens
  obtain ⟨f, hf, hreached⟩ := exists_foldlM_eq_ok (fillLength producers tokens.length)
    ((List.range (tokens.length + 1)).drop 2) ⟨t, []⟩
    (fun i => Reached producers tokens
      ((List.range i).flatMap fun k => Span.ofLength tokens.length (k + 2)))
    (reached_of_placed hplaced) (by
      intro i hi f h
      have hlt : i + 2 < tokens.length + 1 := by
        rw [List.length_drop, List.length_range] at hi
        omega
      rw [List.getElem_drop, List.getElem_range, Nat.add_comm 2 i, List.range_succ,
        List.flatMap_append, List.flatMap_singleton]
      refine exists_fillLength_eq_ok h (by omega) (by omega) fun part hin hpart => ?_
      -- a shorter span has been filled in an earlier round
      obtain ⟨htwo, hend⟩ := Span.mem_composite.mp hin
      exact List.mem_flatMap.mpr ⟨part.length - 2, List.mem_range.mpr (by omega),
        Span.mem_ofLength.mpr (by omega)⟩)
  have hrounds : ((List.range (tokens.length + 1)).drop 2).length = tokens.length - 1 := by
    rw [List.length_drop, List.length_range]
    omega
  refine ⟨f, ?_, ?_⟩
  · rw [fill, hblank]
    show (tokens.zipIdx.foldlM (Triangle.placeToken producers) blank >>= fun t => _) = _
    rw [ht]
    exact hf
  · rw [hrounds] at hreached
    exact hreached

/-- **The recogniser decides by the cells that are filled in place.** For any grammar, the cell of a
span inside the sentence holds the names that derive its tokens, and a sentence is accepted when the
start symbol is in the cell of all of it. -/
theorem exists_fill_decides (g : Grammar) (start : String) (w : Sentence) :
    ∃ f, fill (.ofGrammar g) w = .ok f ∧
      (∀ span : Span, 1 ≤ span.length → span.start + span.length ≤ w.length →
        ∃ cell, f.triangle.cell? span = some cell ∧
          ∀ name, name ∈ cell ↔ ∃ tree : Tree, tree.ValidFor g ∧ tree.root = .nonterminal name ∧
            tree.fringe = (span.tokens w).map Symbol.terminal) ∧
      ((Recogniser.ofGrammar g start).accepts w = true ↔
        ∃ cell, f.triangle.cell? ⟨0, f.triangle.size⟩ = some cell ∧ start ∈ cell) := by
  obtain ⟨f, hf, hreached⟩ := exists_fill_eq_ok (.ofGrammar g) w
  refine ⟨f, hf, fun span hpos hend => ?_, ?_⟩
  · rw [hreached.cell?_eq]
    exact exists_cell_iff_tree hpos hend
  · rw [hreached.cell?_eq, hreached.shaped.size_eq, Recogniser.accepts_iff_mem_members, mem_members]

/-- Filling the chart of a sentence in place ends without a mishap: no number is taken from a smaller
one, and every access has a slot. It leaves the chart that is built row by row. Each cell of two
tokens or more was written once, shorter ones first. For it both parts of each of its cuts were read,
which are shorter, and they held what they hold in the end. The chart is a triangle: whatever two
numbers are given, there is a cell when they are a span of at least one token that ends in the
sentence. -/
theorem fill_eq_ok_and_cells_written_once (producers : Producers) (tokens : List String) :
    (∃ f, fill producers tokens = .ok f ∧ f.triangle.size = tokens.length ∧
      (∀ span, f.triangle.cell? span = (ofTokens producers tokens).cell? span) ∧
      (∀ written ∈ f.log,
        (written.readings.map (·.span) =
          written.span.cuts.flatMap fun (front, back) => [front, back]) ∧
        ∀ reading ∈ written.readings, reading.span.length < written.span.length ∧
          f.triangle.cell? reading.span = some reading.names) ∧
      f.log.map (·.span) = Span.composite tokens.length ∧
      ∀ span : Span, (f.log.map (·.span)).count span =
        if 2 ≤ span.length ∧ span.start + span.length ≤ tokens.length then 1 else 0) ∧
    (ofTokens producers tokens).size = tokens.length ∧
    ∀ start length : Nat, ((ofTokens producers tokens).cell? ⟨start, length⟩).isSome ↔
      1 ≤ length ∧ start + length ≤ tokens.length := by
  obtain ⟨f, hf, hreached⟩ := exists_fill_eq_ok producers tokens
  refine ⟨⟨f, hf, hreached.shaped.size_eq, hreached.cell?_eq, fun written hwritten => ?_, hreached.spans_eq, ?_⟩,
    size_ofTokens, fun start length => isSome_cell?_ofTokens_iff⟩
  · have hfound := hreached.found written hwritten
    refine ⟨hfound.spans_eq, fun reading hreading => ⟨hfound.length_lt hreading, ?_⟩⟩
    rw [hreached.cell?_eq]
    exact hfound.cell?_eq reading hreading
  · intro span
    rw [hreached.spans_eq, (Span.nodup_composite _).count]
    simp only [Span.mem_composite]

end Chart

end Chomsky
