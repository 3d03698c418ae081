/-
# Spans of the source

A span is a pair of byte offsets.  Nothing orders them or ties them to a source: a tree may carry
any span, and what a span means for a given source is decided when it is read.

In the compiler `text?` is `str_of`; `clamp` has its name.
-/
import ExprLang.Text.Bytes

namespace ExprLang

structure Span where
  start : Nat
  stop : Nat
  deriving DecidableEq, Repr, Inhabited

namespace Span

/-- The span of no place in particular. -/
def zero : Span := ⟨0, 0⟩

/-- From the start of one span to the end of another. -/
def combine (a b : Span) : Span := ⟨a.start, b.stop⟩

/-- The part of the source that the span covers; there is none when the offsets are out of order,
past the end or inside a character. -/
def text? (s : Span) (source : String) : Option String :=
  if s.start ≤ s.stop then
    ((Text.dropBytes? s.start source.toList).bind (Text.takeBytes? (s.stop - s.start))).map
      String.ofList
  else none

/-- The span made to fit the source: it starts at the last boundary that is not above its start and
ends at the first one that is not below its end, so no byte of the source that it covers is lost. -/
def clamp (s : Span) (source : String) : Span :=
  let cs := source.toList
  let start := Text.floorBoundary cs s.start
  ⟨start, Text.ceilBoundary cs (max s.stop start)⟩

end Span

end ExprLang
