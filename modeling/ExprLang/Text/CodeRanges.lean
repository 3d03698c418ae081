/-
# Sets of code points

A property of characters is given by the ranges of code points that have it.  Of the tables built on
this, those that say which characters are printed follow Unicode 17, and those that say how they are
laid out in cells follow Unicode 18.
-/

namespace ExprLang.Text

/-- A set of code points: the union of the ranges from a first to a last member. -/
structure CodeRanges where
  ranges : List (Nat × Nat)

namespace CodeRanges

def contains (t : CodeRanges) (c : Char) : Bool :=
  t.ranges.any fun (first, last) => decide (first ≤ c.toNat ∧ c.toNat ≤ last)

end CodeRanges

end ExprLang.Text
