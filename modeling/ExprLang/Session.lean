/-
# Sessions

A session keeps the bindings between calls.  Every call that can change them gives the session
after it; checking and compiling change them by the definitions that were accepted, and nothing else
does but `define`.

In the compiler `define` is `define_global`, `check` is `type_check`, `checkProgram` is
`check_program`, `generate` is `generate_code` and `generateProgram` is `generate_program`;
`compile` and `compileProgram` are `compile` and `compile_program`.
-/
import ExprLang.CompileError
import ExprLang.Emitter
import ExprLang.Typing

namespace ExprLang

structure Session where
  shadowing : Shadowing
  bindings : Bindings
  lines : LineMap
  deriving DecidableEq, Repr

namespace Session

/-- Why a compilation gives no code. -/
inductive Failure where
  | error (e : CompileError)
  | misuse (m : Misuse)
  deriving DecidableEq, Repr

def Failure.ofCode : CodeFailure → Failure
  | .error e => .error (.code e)
  | .misuse m => .misuse m

def Failure.ofTypeErrors (es : List TypeError) : Failure :=
  .error (.rejected (es.map TypeError.toDiagnostic))

/-- A session without bindings.  Without a source all code is on line 0. -/
def new (source : Option String) (shadowing : Shadowing) : Session :=
  ⟨shadowing, .empty, .ofSource? source⟩

/-- Names may not be bound twice unless the caller says so. -/
def defaultShadowing : Shadowing := .forbid

/-- Binds a name to a value, whatever it was bound to before. -/
def define (s : Session) (x : String) (v : Value) : Session :=
  { s with bindings := s.bindings.insert x ⟨v.ty, v⟩ }

/-! ## 1. Checking -/

/-- Checks one statement. -/
def check (s : Session) (e : Expr) : Except (List TypeError) Typed × Session :=
  match e.check s.shadowing s.bindings with
  | .ok (t, bindings) => (.ok t, { s with bindings })
  | .error err => (.error [err], s)

/-- Checks a list of statements, all of them even if some fail. -/
def checkProgram (s : Session) (es : List Expr) : Checked × Session :=
  let (outcome, bindings) := checkAll s.shadowing s.bindings es
  (outcome, { s with bindings })

/-! ## 2. Generating code -/

/-- The type and the code of one typed tree. -/
def generate (s : Session) (t : Typed) : Except CodeFailure (Ty × Bytecode) :=
  (Bytecode.ofTyped s.lines t).map (t.ty, ·)

/-- The type and the code of a list of typed statements. -/
def generateProgram (s : Session) (ts : List Typed) : Except CodeFailure (Ty × Bytecode) :=
  (Bytecode.ofProgram s.lines ts).map (programTy ts, ·)

/-! ## 3. Both -/

/-- Checks one statement and generates its code. -/
def compile (s : Session) (e : Expr) : Except Failure (Ty × Bytecode) × Session :=
  match s.check e with
  | (.ok t, s) => ((s.generate t).mapError .ofCode, s)
  | (.error es, s) => (.error (.ofTypeErrors es), s)

/-- Checks a list of statements and generates their code. -/
def compileProgram (s : Session) (es : List Expr) : Except Failure (Ty × Bytecode) × Session :=
  match s.checkProgram es with
  | (.ok ts, s) => ((s.generateProgram ts).mapError .ofCode, s)
  | (.error errs, s) => (.error (.ofTypeErrors errs), s)

end Session

end ExprLang
