/-
# Values

A value knows its type and its text.  Two relations compare values: `equal`, the equality of the
language, and `sameConstant`, which says when one stored constant can stand for both.  They differ
on numbers only: `0.0` and `-0.0` are equal and need two constants, and a NaN is not even the same
constant as itself.

In the compiler `sameConstant` is `is_same_constant`.
-/
import ExprLang.Number.Decimal
import ExprLang.Text.Quoted
import ExprLang.Ty

namespace ExprLang

inductive Value where
  | number (n : Number)
  | bool (b : Bool)
  | unit
  | str (s : String)
  deriving DecidableEq, Repr, Inhabited

namespace Value

def ty : Value → Ty
  | number _ => .number
  | bool _ => .bool
  | unit => .unit
  | str _ => .string

def asNumber? : Value → Option Number
  | number n => some n
  | _ => none

def asBool? : Value → Option Bool
  | bool b => some b
  | _ => none

def asString? : Value → Option String
  | str s => some s
  | _ => none

/-- The equality of the language. -/
def equal : Value → Value → Bool
  | number a, number b => a.equal b
  | bool a, bool b => a == b
  | unit, unit => true
  | str a, str b => a == b
  | _, _ => false

/-- Whether one stored constant can stand for both values. -/
def sameConstant : Value → Value → Bool
  | number a, number b => a == b && !a.isNaN
  | v, w => v == w

def text : Value → String
  | number n => n.text
  | bool true => "true"
  | bool false => "false"
  | unit => "()"
  | str s => Text.quote s

/-! ## Small facts -/

theorem ty_ne_error (v : Value) : v.ty ≠ .error := by
  cases v <;> simp [ty]

/-- The same constant is the same value, bit for bit. -/
theorem eq_of_sameConstant {v w : Value} (h : v.sameConstant w = true) : v = w := by
  cases v <;> cases w <;> simp_all [sameConstant]

/-- Only a NaN is not the same constant as itself. -/
theorem sameConstant_self_iff (v : Value) :
    v.sameConstant v = true ↔ ∀ n, v = .number n → n.isNaN = false := by
  cases v <;> simp [sameConstant]

end Value

end ExprLang
