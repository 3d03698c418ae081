/-
# Typed trees

An expression with a type at every node and with every name resolved to its value.  The checker
builds such trees; they can also be built by hand, with any types and values, so nothing here says
that the annotations are right.

In the compiler `constant?` is `constant_value`.
-/
import ExprLang.Operator
import ExprLang.Span
import ExprLang.Value

namespace ExprLang

/-- What every node carries. -/
structure NodeInfo where
  ty : Ty
  span : Span
  deriving DecidableEq, Repr

inductive Typed where
  | constant (info : NodeInfo) (value : Value)
  | ident (info : NodeInfo) (name : String) (value : Option Value)
  | unary (info : NodeInfo) (op : UnaryOp) (operand : Typed)
  | binary (info : NodeInfo) (op : BinaryOp) (left right : Typed)
  | cond (info : NodeInfo) (condition thenBranch elseBranch : Typed)
  | lambda (info : NodeInfo)
  | define (info : NodeInfo) (name : String) (value : Typed)
  deriving DecidableEq, Repr

namespace Typed

def info : Typed → NodeInfo
  | constant i _ | ident i _ _ | unary i _ _ | binary i _ _ _ | cond i _ _ _ | lambda i
  | define i _ _ => i

def ty (t : Typed) : Ty := t.info.ty

def span (t : Typed) : Span := t.info.span

def isDefinition : Typed → Bool
  | define .. => true
  | _ => false

/-- The value of a literal, and of no other node. -/
def literal? : Typed → Option Value
  | constant _ v => some v
  | _ => none

/-- The value of a node that is known without running anything: a literal or a resolved name. -/
def constant? : Typed → Option Value
  | constant _ v => some v
  | ident _ _ v => v
  | _ => none

end Typed

end ExprLang
