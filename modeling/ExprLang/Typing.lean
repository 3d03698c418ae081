/-
# The type rules

`Expr.infer` types an expression inside a statement, `Expr.check` a whole statement, `checkAll` a
list of them.

An expression is typed from the leaves up, children from left to right, and **the first rule that
fails decides**: what stands above a mistake is not looked at, so one mistake is reported once.
Only a statement can bind a name, and only after all its rules hold.

The compiler types a statement in `analyze_root` and a list of them in `analyze_program`.  Its
`analyze` goes on after a mistake; it is `Expr.analyze` in `Recovery`, where the two are proved to
agree.
-/
import ExprLang.Bindings
import ExprLang.Expr
import ExprLang.TypeError
import ExprLang.Typed

namespace ExprLang

/-- Whether a definition may bind a name that is bound already. -/
inductive Shadowing where
  | allow
  | forbid
  deriving DecidableEq, Repr, Inhabited

/-! ## 1. The rule of each node, given the types of its children -/

/-- `-` takes a number, `!` a Boolean. -/
def UnaryOp.apply (op : UnaryOp) (operand : Ty) : Except TypeError.Cause Ty :=
  if operand = op.ty then .ok op.ty else .error (.unaryOperand op op.ty operand)

/-- Equality takes two operands of one type, every other operator those of its signature. -/
def BinaryOp.apply (op : BinaryOp) (left right : Ty) : Except TypeError.Cause Ty :=
  match op.signature? with
  | some sig =>
    if left = sig.left ∧ right = sig.right then .ok sig.result
    else .error (.binaryOperands op sig.left sig.right left right)
  | none => if left = right then .ok .bool else .error (.notComparable op left right)

/-- A declared type must be the type of the value. -/
def declarationRule (name : String) (declared : Option Ty) (inferred : Ty) :
    Except TypeError.Cause Unit :=
  match declared with
  | some ty => if ty = inferred then .ok () else .error (.declaration name ty inferred)
  | none => .ok ()

/-- A failed rule becomes a type error at a span. -/
def reportAt (span : Span) {α : Type} : Except TypeError.Cause α → Except TypeError α
  | .ok a => .ok a
  | .error c => .error ⟨span, c⟩

/-! ## 2. Expressions -/

/-- Types an expression that is part of a statement; a definition cannot be one.  The body of a
function is not looked at. -/
def Expr.infer (Γ : Bindings) : Expr → Except TypeError Typed
  | .literal s v => .ok (.constant ⟨v.ty, s⟩ v)
  | .ident s x =>
    match Γ.get? x with
    | some b => .ok (.ident ⟨b.ty, s⟩ x (some b.value))
    | none => .error ⟨s, .undefined x⟩
  | .unary s op e => do
    let t ← e.infer Γ
    let ty ← reportAt s (op.apply t.ty)
    return .unary ⟨ty, s⟩ op t
  | .binary s op l r => do
    let tl ← l.infer Γ
    let tr ← r.infer Γ
    let ty ← reportAt s (op.apply tl.ty tr.ty)
    return .binary ⟨ty, s⟩ op tl tr
  | .cond s c t f => do
    let tc ← c.infer Γ
    let tt ← t.infer Γ
    let tf ← f.infer Γ
    if tc.ty ≠ .bool then throw ⟨tc.span, .condition tc.ty⟩
    if tt.ty ≠ tf.ty then throw ⟨s, .branches tt.ty tf.ty⟩
    return .cond ⟨tt.ty, s⟩ tc tt tf
  | .lambda s _ _ => .error ⟨s, .unsupported "Functions"⟩
  | .define s x declared e => do
    let t ← e.infer Γ
    reportAt s (declarationRule x declared t.ty)
    throw ⟨s, .nested x⟩

/-! ## 3. Statements -/

/-- Types a statement and gives the bindings after it: a definition adds its own, anything else
leaves them as they are. -/
def Expr.check (shadowing : Shadowing) (Γ : Bindings) : Expr → Except TypeError (Typed × Bindings)
  | .define s x declared e => do
    let t ← e.infer Γ
    reportAt s (declarationRule x declared t.ty)
    match t.literal? with
    | none => throw ⟨t.span, .notLiteral x⟩
    | some v =>
      if shadowing = .forbid ∧ Γ.contains x then throw ⟨s, .redefinition x⟩
      return (.define ⟨.unit, s⟩ x t, Γ.insert x ⟨t.ty, v⟩)
  | e => do
    let t ← e.infer Γ
    return (t, Γ)

/-- The outcome of checking a list of statements: all their typed trees, or all their errors. -/
abbrev Checked := Except (List TypeError) (List Typed)

/-- Puts the outcome of a statement before that of the ones after it. -/
def Checked.cons (first : Except TypeError Typed) (rest : Checked) : Checked :=
  match first, rest with
  | .ok t, .ok ts => .ok (t :: ts)
  | .ok _, .error es => .error es
  | .error e, .ok _ => .error [e]
  | .error e, .error es => .error (e :: es)

/-- Checks statements one after another, each under the bindings of those before it; a failed one
binds nothing and does not stop the rest. -/
def checkAll (shadowing : Shadowing) (Γ : Bindings) : List Expr → Checked × Bindings
  | [] => (.ok [], Γ)
  | e :: rest =>
    match e.check shadowing Γ with
    | .ok (t, Γ') =>
      let (outcome, Γ'') := checkAll shadowing Γ' rest
      (.cons (.ok t) outcome, Γ'')
    | .error err =>
      let (outcome, Γ') := checkAll shadowing Γ rest
      (.cons (.error err) outcome, Γ')

end ExprLang
