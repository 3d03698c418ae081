/-
# Fields of fixed width

Text cut to a greatest length and filled up with spaces to a least one.  Both count characters.
-/

namespace ExprLang.Text

/-- Where the text stands in a field that is wider than it. -/
inductive Alignment where
  | left
  | right
  | center
  deriving DecidableEq, Repr

/-- A field: its least width, and how many characters of the text it keeps. -/
structure Field where
  width : Nat := 0
  align : Alignment := .left
  keep : Option Nat := none
  deriving DecidableEq, Repr

/-- Spaces before and after a text that leaves `free` characters of its field; a centred text has
the odd one behind it. -/
def Alignment.spaces : Alignment → Nat → Nat × Nat
  | .left, free => (0, free)
  | .right, free => (free, 0)
  | .center, free => (free / 2, free - free / 2)

/-- The text in its field. -/
def Field.fill (f : Field) (s : String) : String :=
  let cs := match f.keep with
    | some n => s.toList.take n
    | none => s.toList
  let (before, after) := f.align.spaces (f.width - cs.length)
  String.ofList (List.replicate before ' ' ++ cs ++ List.replicate after ' ')

/-- The text with spaces behind it up to `width`. -/
def padRight (width : Nat) (s : String) : String := Field.fill { width, align := .left } s

/-- The text with spaces before it up to `width`. -/
def padLeft (width : Nat) (s : String) : String := Field.fill { width, align := .right } s

/-- A decimal number with zeros before it up to `width`. -/
def zeroPadded (width n : Nat) : String :=
  let digits := Nat.toDigits 10 n
  String.ofList (List.replicate (width - digits.length) '0' ++ digits)

end ExprLang.Text
