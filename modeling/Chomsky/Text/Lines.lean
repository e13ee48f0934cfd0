/-!
# Lines

A line ends at a line feed, and a carriage return right before the line feed belongs to the ending.
The last line may lack its ending; a text that ends in a line feed has no further, empty line, and
an empty text has no lines. The cut is made on any kind of item, so that texts and their bytes are
cut by the same rule.
-/

namespace Chomsky.Text

variable {α : Type} [BEq α]

/-- The items of a line without one final `cr`. -/
def dropReturn (cr : α) (line : List α) : List α :=
  if line.getLast? == some cr then line.dropLast else line

/-- The lines among the pieces between line feeds. Only the last piece has no line feed after it:
it keeps a final `cr`, and it is no line when it is empty. -/
def endedLines (cr : α) : List (List α) → List (List α)
  | [] => []
  | [rest] => if rest.isEmpty then [] else [rest]
  | line :: rest => dropReturn cr line :: endedLines cr rest

/-- The lines of a sequence whose line feed is `lf` and whose carriage return is `cr`. -/
def linesBy (lf cr : α) (items : List α) : List (List α) :=
  endedLines cr (items.splitOn lf)

/-- The lines of a text. -/
def lines (text : List Char) : List (List Char) :=
  linesBy '\n' '\r' text

/-- The lines of a sequence of bytes. -/
def byteLines (bytes : List UInt8) : List (List UInt8) :=
  linesBy 10 13 bytes

/-! ## The first line

A text is empty, or it is one unended line, or it is a line with its ending and a further text. These
three equations determine the lines of every text. -/

section Laws

variable {lf cr : α}

@[simp] theorem linesBy_nil : linesBy lf cr [] = [] := by
  simp [linesBy, endedLines]

variable [LawfulBEq α]

/-- A line without an ending is kept as it is. -/
theorem linesBy_of_not_mem {line : List α} (hne : line ≠ []) (h : lf ∉ line) :
    linesBy lf cr line = [line] := by
  have hsplit : line.splitOn lf = [line] := by
    rw [List.splitOn_eq_splitOnP]
    exact List.splitOnP_eq_singleton fun x hx => by
      have : x ≠ lf := fun e => h (e ▸ hx)
      simpa using this
  simp [linesBy, hsplit, endedLines, hne]

/-- A line with its ending loses the ending, and what follows is cut further. -/
theorem linesBy_append_lf {line : List α} (h : lf ∉ line) (rest : List α) :
    linesBy lf cr (line ++ lf :: rest) = dropReturn cr line :: linesBy lf cr rest := by
  rw [linesBy, List.splitOn_append_cons_self_of_not_mem h]
  obtain ⟨first, more, hrest⟩ := List.exists_cons_of_ne_nil (List.splitOn_ne_nil lf rest)
  rw [linesBy, hrest]
  rfl

end Laws

end Chomsky.Text
