/-
# Errors of a compilation

What a caller of the compiler gets instead of code.

In the compiler it is its `Error`.
-/
import ExprLang.CodeError

namespace ExprLang

inductive CompileError where
  /-- The program is wrong; every mistake has its diagnostic. -/
  | rejected (diagnostics : List Diagnostic)
  /-- The program is right and there is no code for it. -/
  | code (e : CodeError)
  deriving DecidableEq, Repr

def CompileError.message : CompileError → String
  | rejected ds => "Compilation failed with " ++ toString ds.length ++ " error(s)"
  | code e => e.message

end ExprLang
