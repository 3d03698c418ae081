/-
# Numbers: 64-bit words read as IEEE 754 doubles

The language has one kind of number.  It is kept as the word of its double, because two
questions about it have different answers: whether two numbers are **equal** (`0.0` equals
`-0.0`, a NaN equals nothing) and whether they are **the same word**, which is what sharing a
constant needs.
-/

namespace ExprLang

/-- A double-precision number, given by its 64-bit word. -/
structure Number where
  bits : UInt64
  deriving DecidableEq, Repr, Inhabited

namespace Number

/-! ## 1. The fields of the word -/

/-- The highest of the 64 bits: the sign. -/
def signUnit : Nat := 0x8000000000000000

/-- Bit 52, the lowest of the exponent; below it are the digits behind the leading one. -/
def exponentUnit : Nat := 0x10000000000000

/-- The word without its sign bit. -/
def magnitude (n : Number) : Nat := n.bits.toNat % signUnit

def isNegative (n : Number) : Bool := decide (signUnit ≤ n.bits.toNat)

/-- The biased exponent. -/
def exponentField (n : Number) : Nat := n.magnitude / exponentUnit

/-- The digits behind the leading one. -/
def fraction (n : Number) : Nat := n.magnitude % exponentUnit

/-- The magnitude of both infinities; every larger one is a NaN. -/
def infinity : Nat := 2047 * exponentUnit

def isInfinite (n : Number) : Bool := n.magnitude == infinity

def isNaN (n : Number) : Bool := decide (infinity < n.magnitude)

def isZero (n : Number) : Bool := n.magnitude == 0

/-- Equality of the numbers, not of the words: both zeros are equal and a NaN equals nothing. -/
def equal (a b : Number) : Bool :=
  !a.isNaN && !b.isNaN && (a.bits == b.bits || a.isZero && b.isZero)

/-! ## 2. Whole numbers as words -/

/-- The quotient `n / d` rounded to the nearest whole number, a half going to the even one. -/
def roundHalfEven (n d : Nat) : Nat :=
  let q := n / d
  let r := n % d
  if 2 * r < d ∨ 2 * r = d ∧ q % 2 = 0 then q else q + 1

/-- The double nearest to `n`; from the middle of two, the one with the even word. -/
def ofNat (n : Nat) : Number :=
  if n = 0 then ⟨0⟩ else
    let e := n.log2
    let digits := if e ≤ 52 then n <<< (52 - e) else roundHalfEven n (1 <<< (e - 52))
    -- `digits` still holds the leading one, which adds one to the exponent field
    ⟨(min ((e + 1022) * exponentUnit + digits) infinity).toUInt64⟩

def negate (n : Number) : Number := ⟨n.bits ^^^ 0x8000000000000000⟩

/-- The double nearest to `i`; zero has no sign. -/
def ofInt : Int → Number
  | .ofNat n => ofNat n
  | .negSucc n => (ofNat (n + 1)).negate

end Number

end ExprLang
