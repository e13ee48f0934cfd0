import Chomsky.Chart.Producers
import Chomsky.Diagnostics
import Chomsky.Text.Quoted

/-!
# The chart of a sentence

A *span* is a run of neighbouring tokens, given by where it starts and how many tokens it holds.
The chart of a sentence has a cell for every span, and the cell holds the names that derive the
span. Spans of one token are decided by the tokens alone. A longer span is cut into a front and a
back in every possible way, and a name derives the span when it has a pair whose left name derives
a front and whose right name derives the back that belongs to it.

The chart grows by rows: row after row, all spans of one length are filled in from the shorter
ones, which are final by then. Rows of longer spans are shorter, so the chart is a triangle.
-/

namespace Chomsky

/-- A run of tokens. -/
structure Span where
  start : Nat
  length : Nat
  deriving DecidableEq, Repr

namespace Span

/-- The ways to cut a span into a front and a back, both non-empty, shortest front first. -/
def cuts (span : Span) : List (Span × Span) :=
  (List.range (span.length - 1)).map fun k =>
    (⟨span.start, k + 1⟩, ⟨span.start + (k + 1), span.length - (k + 1)⟩)

/-- The spans of a sentence of `n` tokens that hold `length` tokens, from left to right. -/
def ofLength (n length : Nat) : List Span :=
  (List.range (n + 1 - length)).map fun start => ⟨start, length⟩

/-- The spans of two tokens or more in a sentence of `n` tokens, shorter ones first. -/
def composite (n : Nat) : List Span :=
  (List.range (n - 1)).flatMap fun k => ofLength n (k + 2)

/-- The parts of a cut are shorter spans that share the cut span's tokens. -/
@[simp] theorem mem_cuts {span front back : Span} :
    (front, back) ∈ span.cuts ↔
      front.start = span.start ∧ 1 ≤ front.length ∧ front.length < span.length ∧
        back.start = span.start + front.length ∧ back.length = span.length - front.length := by
  obtain ⟨fs, fl⟩ := front
  obtain ⟨bs, bl⟩ := back
  simp only [cuts, List.mem_map, List.mem_range, Prod.mk.injEq, mk.injEq]
  apply Iff.intro
  · intro h
    obtain ⟨k, hk, ⟨rfl, rfl⟩, rfl, rfl⟩ := h
    exact ⟨rfl, by omega, by omega, rfl, rfl⟩
  · intro h
    obtain ⟨rfl, hpos, hlt, rfl, rfl⟩ := h
    exact ⟨fl - 1, by omega, ⟨rfl, by omega⟩, by omega, by omega⟩

/-- A span of a length lies in the sentence when it ends in it. -/
@[simp] theorem mem_ofLength {n length : Nat} {span : Span} :
    span ∈ ofLength n length ↔ span.length = length ∧ span.start + length < n + 1 := by
  obtain ⟨start, l⟩ := span
  simp only [ofLength, List.mem_map, List.mem_range, mk.injEq]
  apply Iff.intro
  · intro h
    obtain ⟨s, hs, rfl, rfl⟩ := h
    exact ⟨rfl, by omega⟩
  · intro h
    obtain ⟨rfl, h⟩ := h
    exact ⟨start, by omega, rfl, rfl⟩

end Span

/-- The cells of a sentence. The row at `k` holds the cells of the spans of `k + 1` tokens, by
where they start. -/
structure Chart where
  rows : Array (Array NameSet)
  deriving DecidableEq

namespace Chart

def empty : Chart := ⟨#[]⟩

def size (chart : Chart) : Nat :=
  chart.rows.size

/-- The cell of a span, when the span lies in the sentence. -/
def cell? (chart : Chart) (span : Span) : Option NameSet :=
  match span.length with
  | 0 => none
  | k + 1 => chart.rows[k]?.bind fun row => row[span.start]?

/-- The cell of the whole sentence, when there is one. -/
def spanning? (chart : Chart) : Option NameSet :=
  chart.cell? ⟨0, chart.size⟩

/-- The names in the cell of a span, in ascending order. -/
def members (chart : Chart) (span : Span) : List String :=
  ((chart.cell? span).map (·.toList)).getD []

/-! ## Filling -/

/-- The names that have a pair of a name from the left list and a name from the right list. -/
def combine (producers : Producers) (left right : List String) : List String :=
  left.flatMap fun b => right.flatMap fun c => (producers.of (.binary b c)).toList

/-- The cell of a span of two tokens or more, from the cells of its parts. -/
def compose (producers : Producers) (chart : Chart) (span : Span) : NameSet :=
  .ofList (span.cuts.flatMap fun (front, back) =>
    combine producers (chart.members front) (chart.members back))

/-- The row of the spans of one token. -/
def firstRow (producers : Producers) (tokens : List String) : Array NameSet :=
  (tokens.map fun token => producers.of (.unary token)).toArray

/-- The row of the spans of `length` tokens, from the rows before it. -/
def nextRow (producers : Producers) (n : Nat) (chart : Chart) (length : Nat) : Array NameSet :=
  ((Span.ofLength n length).map (chart.compose producers)).toArray

/-- The rows of the spans of up to `length` tokens. -/
def upTo (producers : Producers) (tokens : List String) : Nat → Chart
  | 0 => empty
  | 1 => ⟨#[firstRow producers tokens]⟩
  | k + 2 =>
    let chart := upTo producers tokens (k + 1)
    ⟨chart.rows.push (chart.nextRow producers tokens.length (k + 2))⟩

def ofTokens (producers : Producers) (tokens : List String) : Chart :=
  upTo producers tokens tokens.length

/-! ## Notices -/

/-- A set of names as it is told: quoted, in ascending order, in braces. -/
def renderNames (names : List String) : String :=
  "\x7b" ++ String.intercalate ", " (names.map Text.quote) ++ "\x7d"

/-- What is told while a chart is filled: every cell of two tokens or more, in the order in which
they are filled. -/
def notices (chart : Chart) : List Notice :=
  (Span.composite chart.size).map fun span =>
    ⟨.trace, "Cell (" ++ toString span.start ++ ", " ++ toString span.length ++ "): " ++
      renderNames (chart.members span)⟩

end Chart

end Chomsky
