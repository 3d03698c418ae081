/-
# Expressions

The tree that a parser delivers.  Every node carries its span.  A definition is an expression too;
whether it may stand where it does is for the type rules to say.

`Expr.text` writes a tree in prefix form, every operation in parentheses.
-/
import ExprLang.Operator
import ExprLang.Span
import ExprLang.Value

namespace ExprLang

inductive Expr where
  | literal (span : Span) (value : Value)
  | ident (span : Span) (name : String)
  | unary (span : Span) (op : UnaryOp) (operand : Expr)
  | binary (span : Span) (op : BinaryOp) (left right : Expr)
  | cond (span : Span) (condition thenBranch elseBranch : Expr)
  | lambda (span : Span) (params : List String) (body : Expr)
  | define (span : Span) (name : String) (declared : Option Ty) (value : Expr)
  deriving DecidableEq, Repr, Inhabited

namespace Expr

def span : Expr → Span
  | literal s _ | ident s _ | unary s _ _ | binary s _ _ _ | cond s _ _ _ | lambda s _ _
  | define s _ _ _ => s

def isLiteral : Expr → Bool
  | literal .. => true
  | _ => false

def isDefinition : Expr → Bool
  | define .. => true
  | _ => false

/-- The tree in prefix form. -/
def text : Expr → String
  | literal _ v => v.text
  | ident _ x => x
  | unary _ op e => "(" ++ op.symbol ++ " " ++ e.text ++ ")"
  | binary _ op l r => "(" ++ op.symbol ++ " " ++ l.text ++ " " ++ r.text ++ ")"
  | cond _ c t f => "(if " ++ c.text ++ " " ++ t.text ++ " " ++ f.text ++ ")"
  | lambda _ params body => "(fn (" ++ " ".intercalate params ++ ") " ++ body.text ++ ")"
  | define _ x (some ty) e => "(let " ++ x ++ ": " ++ ty.name ++ " " ++ e.text ++ ")"
  | define _ x none e => "(let " ++ x ++ " " ++ e.text ++ ")"

end Expr

end ExprLang
