/-
# Operators

Their symbols, and the types they work on.  Every operator has one fixed signature except `==` and
`!=`, which compare two values of any one type.

In the compiler the types are those of `unary_signature` and `binary_signature`.
-/
import ExprLang.Ty

namespace ExprLang

inductive UnaryOp where
  | neg
  | not
  deriving DecidableEq, Repr

inductive BinaryOp where
  | add
  | sub
  | mul
  | div
  | eq
  | ne
  | lt
  | le
  | gt
  | ge
  deriving DecidableEq, Repr

namespace UnaryOp

def symbol : UnaryOp → String
  | neg => "-"
  | not => "!"

/-- The type of the operand, which is also that of the result. -/
def ty : UnaryOp → Ty
  | neg => .number
  | not => .bool

end UnaryOp

/-- The operand types and the result type of a binary operator. -/
structure Signature where
  left : Ty
  right : Ty
  result : Ty
  deriving DecidableEq, Repr

namespace BinaryOp

def symbol : BinaryOp → String
  | add => "+"
  | sub => "-"
  | mul => "*"
  | div => "/"
  | eq => "=="
  | ne => "!="
  | lt => "<"
  | le => "<="
  | gt => ">"
  | ge => ">="

def isEquality : BinaryOp → Bool
  | eq | ne => true
  | _ => false

/-- The fixed signature; the equality operators have none. -/
def signature? : BinaryOp → Option Signature
  | add | sub | mul | div => some ⟨.number, .number, .number⟩
  | lt | le | gt | ge => some ⟨.number, .number, .bool⟩
  | eq | ne => none

theorem symbol_injective {a b : BinaryOp} (h : a.symbol = b.symbol) : a = b := by
  revert h
  cases a <;> cases b <;> decide

end BinaryOp

end ExprLang
