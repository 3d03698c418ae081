/-
# Lines of the source

Where each line of a source starts, so that a byte offset can be turned into a line number.  Only a
newline ends a line here.  Line numbers are 32-bit words; the first line is 1, and without a source
every offset is on line 0.

In the compiler it is the `LineIndex`, and `lineOf` is `line_of`.
-/

namespace ExprLang

/-- The byte offsets at which the lines of a source start, in order. -/
structure LineMap where
  starts : List Nat
  deriving DecidableEq, Repr

namespace LineMap

/-- The map of no source. -/
def unknown : LineMap := ⟨[]⟩

/-- The line starts behind the newlines of a text that begins at byte `offset`. -/
def startsAfter : Nat → List Char → List Nat
  | _, [] => []
  | offset, c :: cs =>
    let next := offset + c.utf8Size
    if c = '\n' then next :: startsAfter next cs else startsAfter next cs

def ofSource (source : String) : LineMap := ⟨0 :: startsAfter 0 source.toList⟩

def ofSource? : Option String → LineMap
  | some source => ofSource source
  | none => unknown

def count (m : LineMap) : Nat := m.starts.length

/-- The line of a byte offset: the number of lines that start at or before it. -/
def lineOf (m : LineMap) (offset : Nat) : UInt32 :=
  (m.starts.countP (· ≤ offset)).toUInt32

end LineMap

end ExprLang
