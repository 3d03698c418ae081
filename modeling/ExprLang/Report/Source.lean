/-
# The source as it is drawn

The source of a report, cut into lines, and the columns that its characters take.  Positions here
count characters, not bytes.
-/
import ExprLang.Report.Piece
import ExprLang.Text.Blank
import ExprLang.Text.Lines
import ExprLang.Text.Width

namespace ExprLang.Report

/-- A line of the source: the number of characters before it and in it, the break that ends it
included, and those that are drawn. -/
structure SourceLine where
  offset : Nat
  size : Nat
  visible : List Char
  deriving DecidableEq, Repr, Inhabited

/-- Adds the offsets to lines that start at `offset`. -/
def placeLines : Nat → List (List Char) → List SourceLine
  | _, [] => []
  | offset, l :: ls =>
    ⟨offset, l.length, Text.trimEnd l⟩ :: placeLines (offset + l.length) ls

/-- The lines of a source; an empty source has one. -/
def sourceLines (cs : List Char) : List SourceLine :=
  match placeLines 0 (Text.paragraphs cs) with
  | [] => [⟨0, 0, []⟩]
  | ls => ls

/-- The number of the last line that starts at or before a position. -/
def lineAt (ls : List SourceLine) (position : Nat) : Nat :=
  ls.countP (·.offset ≤ position) - 1

namespace SourceLine

/-- What is drawn for a character in a column: a tab goes to the next multiple of four, other white
space is one space. -/
def drawn (col : Nat) (c : Char) : List Char :=
  if c = '\t' then List.replicate (4 - col % 4) ' '
  else if Text.isBlank c then [' ']
  else [c]

/-- The cells of a character in a column. -/
def cellsAt (col : Nat) (c : Char) : Nat :=
  if c = '\t' then 4 - col % 4 else if Text.isBlank c then 1 else Text.cells c

/-- The cells of the first `n` columns; past the end of the line a column is one cell. -/
def widths (l : SourceLine) (n : Nat) : List Nat :=
  (l.visible.take n).mapIdx cellsAt ++ List.replicate (n - l.visible.length) 1

/-- The line, its characters from `start` to `stop` in the ink of the label. -/
def draw (l : SourceLine) (start stop : Nat) : List Piece :=
  l.visible.zipIdx.flatMap fun (c, col) =>
    let position := l.offset + col
    let ink := if start ≤ position ∧ position < stop then Ink.label else Ink.source
    (drawn col c).map fun d => .inked ink d.toString

end SourceLine

end ExprLang.Report
