/-
# Diagnostics

What the user is shown of a mistake, whichever part of the compiler found it.

The compiler makes one by `to_diagnostic`.
-/
import ExprLang.Span

namespace ExprLang

structure Diagnostic where
  message : String
  span : Span
  help : Option String
  code : Option String
  deriving DecidableEq, Repr

/-- One line with the message and its code, and the help text under it. -/
def Diagnostic.text (d : Diagnostic) : String :=
  "error: " ++ d.message
    ++ (d.code.elim "" fun c => " [" ++ c ++ "]")
    ++ (d.help.elim "" fun h => "\n" ++ h)

end ExprLang
