/-
# Type errors

A type error is a cause and the span it is reported at.  The wording stands here and nowhere else:
a short code, a headline, and for most causes a few lines of details.

In the compiler a cause is a `TypeErrorKind`, with its `code`, `headline` and `details`.
-/
import ExprLang.Diagnostic
import ExprLang.Operator
import ExprLang.Text.Pad

namespace ExprLang

namespace TypeError

inductive Cause where
  /-- The name has no binding. -/
  | undefined (name : String)
  /-- The operand of a unary operator has another type than the operator takes. -/
  | unaryOperand (op : UnaryOp) (expected found : Ty)
  /-- The operands of a binary operator do not fit its signature. -/
  | binaryOperands (op : BinaryOp) (expectedLeft expectedRight left right : Ty)
  /-- The operands of an equality operator have two types. -/
  | notComparable (op : BinaryOp) (left right : Ty)
  /-- The condition is no `Bool`. -/
  | condition (found : Ty)
  /-- The two branches have two types. -/
  | branches (thenTy elseTy : Ty)
  /-- The language has the construct, the compiler has not. -/
  | unsupported (feature : String)
  /-- The declared type is not that of the value. -/
  | declaration (name : String) (declared inferred : Ty)
  /-- The value of a definition is no literal. -/
  | notLiteral (name : String)
  /-- The name is bound and may not be bound again. -/
  | redefinition (name : String)
  /-- The definition is part of another expression. -/
  | nested (name : String)
  deriving DecidableEq, Repr

end TypeError

structure TypeError where
  span : Span
  cause : TypeError.Cause
  deriving DecidableEq, Repr

namespace TypeError

def code (e : TypeError) : String :=
  match e.cause with
  | .undefined .. => "E001"
  | .unaryOperand .. => "E002"
  | .binaryOperands .. => "E003"
  | .notComparable .. => "E004"
  | .condition .. => "E005"
  | .branches .. => "E006"
  | .unsupported .. => "E007"
  | .declaration .. => "E008"
  | .notLiteral .. => "E009"
  | .redefinition .. => "E010"
  | .nested .. => "E011"

def headline (e : TypeError) : String :=
  match e.cause with
  | .undefined x => "Undefined identifier: " ++ x
  | .unaryOperand op .. => "Unmatched types around unary operator " ++ op.symbol
  | .binaryOperands op .. => "Unmatched types around binary operator " ++ op.symbol
  | .notComparable op .. => "Unmatched types around comparison operator " ++ op.symbol
  | .condition _ => "Condition of if expression must be Bool"
  | .branches .. => "Type mismatch in branching"
  | .unsupported feature => feature ++ " are not implemented yet"
  | .declaration .. => "Type mismatch in value definition"
  | .notLiteral _ => "Constant folding is unimplemented yet"
  | .redefinition x => "Redefinition of " ++ x
  | .nested _ => "Definitions are only allowed at top level"

/-- An operation on types, its operands in columns. -/
def operation (op : BinaryOp) (left right : Ty) : String :=
  Text.padRight 8 left.name ++ Text.padRight 3 op.symbol ++ right.name

def details? (e : TypeError) : Option String :=
  match e.cause with
  | .undefined _ | .unsupported _ => none
  | .unaryOperand op expected found =>
    some ("Requires " ++ op.symbol ++ " " ++ expected.name
      ++ "\nHas      " ++ op.symbol ++ " " ++ found.name)
  | .binaryOperands op expectedLeft expectedRight left right =>
    some ("Requires " ++ operation op expectedLeft expectedRight
      ++ "\nHas      " ++ operation op left right)
  | .notComparable op left right =>
    some ("Requires T " ++ op.symbol ++ " T\nwhere T: EqualityComparable\nHas "
      ++ left.name ++ " " ++ op.symbol ++ " " ++ right.name)
  | .condition found => some ("Has " ++ found.name)
  | .branches thenTy elseTy =>
    some ("If branch: " ++ thenTy.name ++ "\nElse branch: " ++ elseTy.name)
  | .declaration x declared inferred =>
    some ("Got let " ++ x ++ ": " ++ declared.name ++ " = " ++ inferred.name ++ "\n"
      ++ x ++ " is left undefined")
  | .notLiteral x => some ("The value bound to " ++ x ++ " must be a literal")
  | .redefinition x => some (x ++ " is already defined in this scope")
  | .nested x => some ("Move the definition of " ++ x ++ " to its own statement")

/-- The headline with the details under it. -/
def text (e : TypeError) : String :=
  e.headline ++ (e.details?.elim "" fun d => "\n" ++ d)

def toDiagnostic (e : TypeError) : Diagnostic :=
  { message := e.headline, span := e.span, help := e.details?, code := some e.code }

end TypeError

end ExprLang
