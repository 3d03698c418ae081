/-
# The decimal text of a number

A number is written with **the fewest digits that read back to it**.  A double stands for all
reals that round to it, an interval around its exact value.  On the decimal grid `10^p` only the
two neighbours of the exact value matter: if any point of the grid lies in the interval, so does
one of them.  Grids are tried from coarse to fine, so the first hit has the fewest digits; of two
hits the nearer wins, and from the middle the larger one.
-/
import ExprLang.Number

namespace ExprLang

/-- The reals that round to one positive double, in units of `2^unit`; the ends belong to it when
`closed` holds. -/
structure Rounding where
  low : Nat
  mid : Nat
  high : Nat
  unit : Int
  closed : Bool
  deriving DecidableEq, Repr

namespace Rounding

/-- The interval of a positive finite double.  The unit is a quarter of the last place, since below
a power of two the next double is half as far away. -/
def ofNumber (n : Number) : Rounding :=
  let e := max n.exponentField 1
  let m := if n.exponentField = 0 then n.fraction else n.fraction + Number.exponentUnit
  let below := if n.fraction = 0 ∧ 1 < n.exponentField then 1 else 2
  { low := 4 * m - below, mid := 4 * m, high := 4 * m + 2, unit := e - 1077, closed := m % 2 == 0 }

/-- On the grid `10^p` one unit is `unitOver p / gridOver p` steps. -/
def unitOver (r : Rounding) (p : Int) : Nat := Nat.pow 2 r.unit.toNat * Nat.pow 10 (-p).toNat

@[inherit_doc unitOver]
def gridOver (r : Rounding) (p : Int) : Nat := Nat.pow 2 (-r.unit).toNat * Nat.pow 10 p.toNat

/-- Whether `d * 10^p` rounds to the double. -/
def readsBack (r : Rounding) (d : Nat) (p : Int) : Bool :=
  let x := d * r.gridOver p
  let u := r.unitOver p
  if r.closed then decide (r.low * u ≤ x ∧ x ≤ r.high * u)
  else decide (r.low * u < x ∧ x < r.high * u)

/-- The point of the grid `10^p` that stands for the double, if one reads back. -/
def onGrid (r : Rounding) (p : Int) : Option Nat :=
  let value := r.mid * r.unitOver p
  let step := r.gridOver p
  let k := value / step
  match r.readsBack k p, r.readsBack (k + 1) p with
  | true, true => some (if 2 * (value % step) < step then k else k + 1)
  | true, false => some k
  | false, true => some (k + 1)
  | false, false => none

/-- A grid coarser than the exact value, by the estimate `log10 2 < 0.30103`. -/
def coarsest (r : Rounding) : Int := (r.mid.log2 + 1 + r.unit) * 30103 / 100000 + 2

/-- All digits of the exact value. -/
def expansion (r : Rounding) : Nat × Int :=
  (r.mid * Nat.pow 2 r.unit.toNat * Nat.pow 5 (-r.unit).toNat, -((-r.unit).toNat : Int))

/-- The digits and the exponent of the shortest decimal that reads back.  Seventeen digits always
do, and `coarsest` is at most four grids above the first of them. -/
def shortest (r : Rounding) : Nat × Int :=
  let hit := (List.range 24).findSome? fun (i : Nat) =>
    let p := r.coarsest - i
    (r.onGrid p).map (·, p)
  hit.getD r.expansion

end Rounding

/-- The decimal `d * 10^p` without an exponent: a point only when there are places behind it. -/
def positional (d : Nat) (p : Int) : List Char :=
  let digits := Nat.toDigits 10 d
  let places := (-p).toNat
  if places = 0 then digits ++ List.replicate p.toNat '0'
  else if digits.length ≤ places then
    '0' :: '.' :: (List.replicate (places - digits.length) '0' ++ digits)
  else
    digits.take (digits.length - places) ++ '.' :: digits.drop (digits.length - places)

/-- The text of a number: `NaN`, `inf`, `-0`, and otherwise the shortest digits, never with an
exponent. -/
def Number.text (n : Number) : String :=
  if n.isNaN then "NaN"
  else
    let digits :=
      if n.isInfinite then ['i', 'n', 'f']
      else if n.isZero then ['0']
      else
        let (d, p) := (Rounding.ofNumber n).shortest
        positional d p
    String.ofList (if n.isNegative then '-' :: digits else digits)

end ExprLang
