/-
# Failures of the code generator

Two kinds.  A `CodeError` is a limit of the instruction format or a construct without instructions;
the user can do something about it.  A `Misuse` stops the generator: the tree was not one the
checker builds, or the generator has lost its own place in the code.

In the compiler a `CodeError` is a `CompileError`.  A `Misuse` is an assertion that fails: in
`transform`, `push_value`, `pop_stack`, `write_jump` or `jump_patch`, and its message is what the
assertion says.
-/
import ExprLang.Diagnostic
import ExprLang.Ty

namespace ExprLang

inductive CodeError where
  /-- The program has more than 256 constants. -/
  | tooManyConstants
  /-- A jump has to skip more than 255 bytes. -/
  | jumpTooFar (distance : Nat)
  /-- There are no instructions for the construct. -/
  | unsupported (construct : String)
  deriving DecidableEq, Repr

namespace CodeError

def message : CodeError → String
  | tooManyConstants => "Too many constants (limit: 256)"
  | jumpTooFar d => "Jump distance " ++ toString d ++ " too large (limit: 255 bytes)"
  | unsupported construct => "Cannot generate code for " ++ construct

/-- A limit can be met by smaller expressions. -/
def help? : CodeError → Option String
  | tooManyConstants | jumpTooFar _ => some "Split the program into smaller expressions"
  | unsupported _ => none

/-- The place of such a failure is not known. -/
def toDiagnostic (e : CodeError) : Diagnostic :=
  { message := e.message, span := .zero, help := e.help?, code := none }

end CodeError

inductive Misuse where
  /-- A node has the error type. -/
  | errorTyped
  /-- A name has no value. -/
  | unresolved (name : String)
  /-- An operand was counted that no code pushed. -/
  | stackUnderflow
  /-- The condition is no `Bool`. -/
  | condition (found : Ty)
  /-- The branches have two types. -/
  | branches (thenTy elseTy : Ty)
  /-- An operation was written as a jump that is none. -/
  | notJump
  /-- A jump was to land before the end of its own operand. -/
  | landsBeforeOperand
  /-- A byte was to be overwritten that is not there. -/
  | noByte (index size : Nat)
  deriving DecidableEq, Repr

namespace Misuse

/-- The report of an assertion that compares two types. -/
def comparison (what : String) (left right : Ty) : String :=
  "assertion `left == right` failed: " ++ what ++ "\n  left: " ++ left.name ++ "\n right: "
    ++ right.name

def message : Misuse → String
  | errorTyped => "Error-typed node reached code generation (should be caught by type checker)"
  | unresolved x =>
    "internal error: entered unreachable code: unresolved identifier `" ++ x
      ++ "` reached code generation"
  | stackUnderflow => "Stack underflow"
  | condition found => comparison "Type of condition must be boolean" found .bool
  | branches thenTy elseTy => comparison "Type of different branches must match" thenTy elseTy
  | notJump => "assertion failed: op.is_jump()"
  | landsBeforeOperand => "attempt to subtract with overflow"
  | noByte index size =>
    "index out of bounds: the len is " ++ toString size ++ " but the index is " ++ toString index

end Misuse

/-- Why no code was generated. -/
inductive CodeFailure where
  | error (e : CodeError)
  | misuse (m : Misuse)
  deriving DecidableEq, Repr

end ExprLang
