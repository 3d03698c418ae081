/-
# Types

The four types of values, and the type `error` of an expression that has none.  No value has the
error type; it appears in declarations and in trees that were built by hand.

In the compiler `isError` is `is_error`.
-/

namespace ExprLang

inductive Ty where
  | number
  | bool
  | unit
  | string
  | error
  deriving DecidableEq, Repr, Inhabited

namespace Ty

def name : Ty → String
  | number => "Number"
  | bool => "Bool"
  | unit => "Unit"
  | string => "String"
  | error => "Error"

def isError (t : Ty) : Bool := t == error

/-- A type is known by its name. -/
theorem name_injective {s t : Ty} (h : s.name = t.name) : s = t := by
  revert h
  cases s <;> cases t <;> decide

end Ty

end ExprLang
