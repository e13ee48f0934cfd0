import Chomsky.Chart.Basic

/-!
# Filling a chart in place

`Chart.ofTokens` builds a chart row by row and never looks outside it. The same chart is filled in
place here: all cells are there from the start, empty, and each is reached by two numbers. The rows
of this triangle go by where a span starts, and the slot at `column` of a row is the cell of
`column + 1` tokens, so a row that starts later is shorter.

Two things can go wrong in such a program: a number is taken from a smaller one, or there is no slot
at a place. Every subtraction and every access is checked for them here (`Chart.Mishap`). A sum needs
no check: where there is a slot, `start + split + 1` is below the number of tokens.

Filling keeps a log: for each cell of two tokens or more that was written, what was read for it.
-/

namespace Chomsky.Chart

/-- What can go wrong while a chart is filled in place. -/
inductive Mishap where
  /-- A number is taken from a smaller one. -/
  | negative
  /-- There is no slot at a place. -/
  | outside
  deriving DecidableEq, Repr

/-- A difference, when it is not negative. -/
def minus (a b : Nat) : Except Mishap Nat :=
  if b ≤ a then .ok (a - b) else .error .negative

/-- What a cell held when it was read. -/
structure Reading where
  span : Span
  names : NameSet

/-- The cells of a sentence by where they start, and in each row the shorter ones first. -/
structure Triangle where
  rows : Array (Array NameSet)

namespace Triangle

/-- The number of tokens: one row for each. -/
def size (t : Triangle) : Nat :=
  t.rows.size

def slot? (t : Triangle) (start column : Nat) : Option NameSet :=
  t.rows[start]?.bind fun row => row[column]?

/-- The cell of a span, when there is one. No sum is computed, so any two numbers may be given. -/
def cell? (t : Triangle) (span : Span) : Option NameSet :=
  (minus span.length 1).toOption.bind fun column => t.slot? span.start column

def read (t : Triangle) (start column : Nat) : Except Mishap Reading :=
  match t.slot? start column with
  | none => .error .outside
  | some names => .ok ⟨⟨start, column + 1⟩, names⟩

def put (t : Triangle) (start column : Nat) (names : NameSet) : Except Mishap Triangle :=
  match t.slot? start column with
  | none => .error .outside
  | some _ => .ok ⟨t.rows.modify start fun row => row.setIfInBounds column names⟩

/-- The row of the spans at `start`: one for each place where they can end. -/
def addBlankRow (n : Nat) (rows : Array (Array NameSet)) (start : Nat) :
    Except Mishap (Array (Array NameSet)) := do
  return rows.push (Array.replicate (← minus n start) ∅)

/-- The empty cells of a sentence of `n` tokens. -/
def blank (n : Nat) : Except Mishap Triangle := do
  return ⟨← (List.range n).foldlM (addBlankRow n) #[]⟩

/-- Adds the producers of a token to the cell of this token alone, if it has any. -/
def placeToken (producers : Producers) (t : Triangle) (token : String × Nat) :
    Except Mishap Triangle := do
  match producers.of? (.unary token.1) with
  | none => return t
  | some names => t.put token.2 0 ((← t.read token.2 0).names ∪ names)

end Triangle

/-! ## One cell -/

/-- What has been found for a cell, and what was read to find it. -/
structure Gathering where
  names : NameSet
  readings : List Reading

/-- Cuts the cell of `length` tokens after `split + 1` of them, and adds the names that have a pair
of names from the two parts. -/
def gatherCut (producers : Producers) (t : Triangle) (start length : Nat) (g : Gathering)
    (split : Nat) : Except Mishap Gathering := do
  let front ← t.read start split
  let back ← t.read (start + split + 1) (← minus (← minus length split) 2)
  return ⟨g.names.insertMany (combine producers front.names.toList back.names.toList),
    g.readings ++ [front, back]⟩

def gather (producers : Producers) (t : Triangle) (start length : Nat) : Except Mishap Gathering := do
  (List.range (← minus length 1)).foldlM (gatherCut producers t start length) ⟨∅, []⟩

/-! ## All cells -/

/-- A cell that was written, and what was read for it. -/
structure Written where
  span : Span
  readings : List Reading

/-- The cells, and a log of the cells of two tokens or more that were written, in this order. -/
structure Filling where
  triangle : Triangle
  log : List Written

/-- Writes a slot and logs it. -/
def Filling.write (f : Filling) (start column : Nat) (g : Gathering) : Except Mishap Filling := do
  return ⟨← f.triangle.put start column g.names, f.log ++ [⟨⟨start, column + 1⟩, g.readings⟩]⟩

def fillCell (producers : Producers) (length : Nat) (f : Filling) (start : Nat) :
    Except Mishap Filling := do
  let found ← gather producers f.triangle start length
  f.write start (← minus length 1) found

/-- Fills the cells of `length` tokens from left to right. -/
def fillLength (producers : Producers) (n : Nat) (f : Filling) (length : Nat) :
    Except Mishap Filling := do
  (List.range ((← minus n length) + 1)).foldlM (fillCell producers length) f

/-- Fills the cells of the tokens, and then those of two tokens or more, shorter ones first. -/
def fill (producers : Producers) (tokens : List String) : Except Mishap Filling := do
  let n := tokens.length
  let t ← tokens.zipIdx.foldlM (Triangle.placeToken producers) (← Triangle.blank n)
  ((List.range (n + 1)).drop 2).foldlM (fillLength producers n) ⟨t, []⟩

end Chomsky.Chart
