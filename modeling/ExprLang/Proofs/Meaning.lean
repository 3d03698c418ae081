/-
# What programs mean

A direct evaluator for source trees.  It knows nothing of types, bindings tables or code: names are
looked up in an environment of values, an operator without a meaning for its operands has no result,
and a definition extends the environment for the statements after it.  The operations on doubles are
left open (`Arithmetic`), so nothing below depends on how they round.

Two results tie the evaluator to the checker.  **Checking keeps the meaning**: a typed tree, in
which the names are gone, has the value of its source (`eval_of_infer`).  **A well-typed tree has a
value, and the value has its type** (`Typed.WellTyped.exists_eval`).
-/
import ExprLang.Proofs.WellTyped

namespace ExprLang

/-! ## 1. Operators -/

/-- The operations on doubles. -/
structure Arithmetic where
  neg : Number → Number
  add : Number → Number → Number
  sub : Number → Number → Number
  mul : Number → Number → Number
  div : Number → Number → Number
  eq : Number → Number → Bool
  lt : Number → Number → Bool
  le : Number → Number → Bool
  gt : Number → Number → Bool
  ge : Number → Number → Bool

/-- Equality of two values of one type. -/
def Value.same? (A : Arithmetic) : Value → Value → Option Bool
  | .number a, .number b => some (A.eq a b)
  | .bool a, .bool b => some (a == b)
  | .unit, .unit => some true
  | .str a, .str b => some (a == b)
  | _, _ => none

def UnaryOp.eval (A : Arithmetic) : UnaryOp → Value → Option Value
  | .neg, .number a => some (.number (A.neg a))
  | .not, .bool b => some (.bool !b)
  | _, _ => none

def BinaryOp.eval (A : Arithmetic) : BinaryOp → Value → Value → Option Value
  | .add, .number a, .number b => some (.number (A.add a b))
  | .sub, .number a, .number b => some (.number (A.sub a b))
  | .mul, .number a, .number b => some (.number (A.mul a b))
  | .div, .number a, .number b => some (.number (A.div a b))
  | .lt, .number a, .number b => some (.bool (A.lt a b))
  | .le, .number a, .number b => some (.bool (A.le a b))
  | .gt, .number a, .number b => some (.bool (A.gt a b))
  | .ge, .number a, .number b => some (.bool (A.ge a b))
  | .eq, a, b => (a.same? A b).map .bool
  | .ne, a, b => (a.same? A b).map fun same => .bool !same
  | _, _, _ => none

/-! ## 2. Source trees -/

/-- The values of the names. -/
abbrev Environment := String → Option Value

/-- The environment of a table. -/
def Bindings.values (Γ : Bindings) : Environment := fun x => (Γ.get? x).map Binding.value

def Environment.bind (ρ : Environment) (x : String) (v : Value) : Environment :=
  fun y => if y = x then some v else ρ y

/-- The value of an expression. -/
def Expr.eval (A : Arithmetic) (ρ : Environment) : Expr → Option Value
  | .literal _ v => some v
  | .ident _ x => ρ x
  | .unary _ op e => do
    let v ← e.eval A ρ
    op.eval A v
  | .binary _ op l r => do
    let v ← l.eval A ρ
    let w ← r.eval A ρ
    op.eval A v w
  | .cond _ c a b => do
    match ← c.eval A ρ with
    | .bool true => a.eval A ρ
    | .bool false => b.eval A ρ
    | _ => none
  | .lambda .. => none
  | .define .. => none

/-- The values that a statement leaves, one or none, and the environment after it. -/
def Expr.perform (A : Arithmetic) (ρ : Environment) : Expr → Option (List Value × Environment)
  | .define _ x _ e => do
    let v ← e.eval A ρ
    return ([], ρ.bind x v)
  | e => do
    let v ← e.eval A ρ
    return ([v], ρ)

/-- The values that a program leaves: those of its last statement. -/
def performAll (A : Arithmetic) (ρ : Environment) : List Expr → Option (List Value)
  | [] => some []
  | [e] => (e.perform A ρ).map Prod.fst
  | e :: f :: es => do
    let (_, ρ) ← e.perform A ρ
    performAll A ρ (f :: es)

/-! ## 3. Typed trees -/

/-- The value of a typed tree.  Names have been resolved, so there is no environment. -/
def Typed.eval (A : Arithmetic) : Typed → Option Value
  | .constant _ v => some v
  | .ident _ _ v => v
  | .unary _ op e => do
    let v ← e.eval A
    op.eval A v
  | .binary _ op l r => do
    let v ← l.eval A
    let w ← r.eval A
    op.eval A v w
  | .cond _ c a b => do
    match ← c.eval A with
    | .bool true => a.eval A
    | .bool false => b.eval A
    | _ => none
  | .lambda _ => none
  | .define .. => none

/-- **Checking keeps the meaning.** -/
theorem eval_of_infer (A : Arithmetic) {Γ : Bindings} {e : Expr} {t : Typed}
    (h : e.infer Γ = .ok t) : e.eval A Γ.values = t.eval A := by
  induction e generalizing t with
  | literal s v =>
    rw [infer_literal_ok.mp h]
    rfl
  | ident s x =>
    obtain ⟨b, hb, rfl⟩ := infer_ident_ok.mp h
    rw [Expr.eval, Bindings.values, hb]
    rfl
  | unary s op e ih =>
    obtain ⟨u, hu, -, rfl⟩ := infer_unary_ok.mp h
    rw [Expr.eval, Typed.eval, ih hu]
  | binary s op l r ihl ihr =>
    obtain ⟨tl, tr, ty, hl, hr, -, rfl⟩ := infer_binary_ok.mp h
    rw [Expr.eval, Typed.eval, ihl hl, ihr hr]
  | cond s c a b ihc iha ihb =>
    obtain ⟨tc, ta, tb, hc, ha, hb, -, -, rfl⟩ := infer_cond_ok.mp h
    rw [Expr.eval, Typed.eval, ihc hc, iha ha, ihb hb]
  | lambda s params body => exact absurd h infer_lambda_ne_ok
  | define s x declared e => exact absurd h infer_define_ne_ok

/-! ## 4. Values of the right type -/

theorem Value.eq_number {v : Value} (h : v.ty = .number) : ∃ a, v = .number a := by
  cases v with
  | number a => exact ⟨a, rfl⟩
  | _ => simp [Value.ty] at h

theorem Value.eq_bool {v : Value} (h : v.ty = .bool) : ∃ b, v = .bool b := by
  cases v with
  | bool b => exact ⟨b, rfl⟩
  | _ => simp [Value.ty] at h

theorem Value.exists_same? (A : Arithmetic) {v w : Value} (h : v.ty = w.ty) :
    ∃ b, v.same? A w = some b := by
  cases v <;> cases w <;> simp_all [Value.ty, Value.same?]

theorem UnaryOp.exists_eval (A : Arithmetic) {op : UnaryOp} {v : Value} (h : v.ty = op.ty) :
    ∃ w, op.eval A v = some w ∧ w.ty = op.ty := by
  cases op with
  | neg =>
    obtain ⟨a, rfl⟩ := Value.eq_number h
    exact ⟨_, rfl, rfl⟩
  | not =>
    obtain ⟨b, rfl⟩ := Value.eq_bool h
    exact ⟨_, rfl, rfl⟩

/-- **An operator has a result wherever its rule allows its operands**, of the type in the rule. -/
theorem BinaryOp.exists_eval (A : Arithmetic) {op : BinaryOp} {v w : Value} {ty : Ty}
    (h : op.apply v.ty w.ty = .ok ty) : ∃ u, op.eval A v w = some u ∧ u.ty = ty := by
  rcases apply_eq_ok_iff.mp h with ⟨hop, hv, hw, rfl⟩ | ⟨hop, hv, hw, rfl⟩ | ⟨hop, hvw, rfl⟩
  · obtain ⟨a, rfl⟩ := Value.eq_number hv
    obtain ⟨b, rfl⟩ := Value.eq_number hw
    simp only [List.mem_cons, List.not_mem_nil, or_false] at hop
    rcases hop with rfl | rfl | rfl | rfl <;> exact ⟨_, rfl, rfl⟩
  · obtain ⟨a, rfl⟩ := Value.eq_number hv
    obtain ⟨b, rfl⟩ := Value.eq_number hw
    simp only [List.mem_cons, List.not_mem_nil, or_false] at hop
    rcases hop with rfl | rfl | rfl | rfl <;> exact ⟨_, rfl, rfl⟩
  · obtain ⟨same, hs⟩ := Value.exists_same? A hvw
    simp only [List.mem_cons, List.not_mem_nil, or_false] at hop
    rcases hop with rfl | rfl
    · exact ⟨.bool same, by rw [BinaryOp.eval, hs]; rfl, rfl⟩
    · exact ⟨.bool !same, by rw [BinaryOp.eval, hs]; rfl, rfl⟩

/-- **A well-typed tree has a value, and the value has its type.** -/
theorem Typed.WellTyped.exists_eval (A : Arithmetic) {t : Typed} (ht : t.WellTyped) :
    ∃ v, t.eval A = some v ∧ v.ty = t.ty := by
  induction ht with
  | constant => exact ⟨_, rfl, rfl⟩
  | ident => exact ⟨_, rfl, rfl⟩
  | unary _ hty ih =>
    obtain ⟨v, hv, hvt⟩ := ih
    obtain ⟨w, hw, hwt⟩ := UnaryOp.exists_eval A (hvt.trans hty)
    exact ⟨w, by rw [Typed.eval, hv]; exact hw, hwt⟩
  | binary _ _ hty ihl ihr =>
    obtain ⟨v, hv, hvt⟩ := ihl
    obtain ⟨w, hw, hwt⟩ := ihr
    rw [← hvt, ← hwt] at hty
    obtain ⟨u, hu, hut⟩ := BinaryOp.exists_eval A hty
    exact ⟨u, by rw [Typed.eval, hv, hw]; exact hu, hut⟩
  | cond _ _ _ hbool hty ihc iha ihb =>
    obtain ⟨v, hv, hvt⟩ := ihc
    obtain ⟨test, rfl⟩ := Value.eq_bool (hvt.trans hbool)
    cases test with
    | true =>
      obtain ⟨u, hu, hut⟩ := iha
      exact ⟨u, by rw [Typed.eval, hv]; exact hu, hut⟩
    | false =>
      obtain ⟨u, hu, hut⟩ := ihb
      exact ⟨u, by rw [Typed.eval, hv]; exact hu, hut.trans hty.symm⟩

/-! ## 5. Programs -/

/-- The values that a typed statement leaves. -/
def Typed.results (A : Arithmetic) (t : Typed) : Option (List Value) :=
  if t.isDefinition then some [] else (t.eval A).map ([·])

/-- The values that a typed program leaves. -/
def resultsOf (A : Arithmetic) (ts : List Typed) : Option (List Value) :=
  ts.getLast?.elim (some []) (Typed.results A)

theorem Typed.WellTypedStatement.exists_results (A : Arithmetic) {t : Typed}
    (ht : t.WellTypedStatement) : ∃ vs, t.results A = some vs ∧ vs.map Value.ty = t.leaves := by
  cases ht with
  | expression h =>
    obtain ⟨v, hv, hvt⟩ := h.exists_eval A
    refine ⟨[v], ?_, ?_⟩
    · rw [Typed.results, h.isDefinition, hv]
      rfl
    · rw [h.leaves, ← hvt]
      rfl
  | definition => exact ⟨[], rfl, rfl⟩

/-- **A program of well-typed statements leaves values of the types on its exit stack.** -/
theorem exists_resultsOf (A : Arithmetic) {ts : List Typed} (ht : ∀ t ∈ ts, t.WellTypedStatement) :
    ∃ vs, resultsOf A ts = some vs ∧ vs.map Value.ty = exitStack ts := by
  rw [resultsOf, exitStack]
  cases h : ts.getLast? with
  | none => exact ⟨[], rfl, rfl⟩
  | some t => exact (ht t (List.mem_of_getLast? h)).exists_results A

theorem values_insert (Γ : Bindings) (x : String) (b : Binding) :
    (Γ.insert x b).values = Γ.values.bind x b.value := by
  funext y
  rw [Bindings.values, Bindings.get?_insert, Environment.bind, Bindings.values]
  split <;> rfl

theorem perform_expression (A : Arithmetic) {ρ : Environment} {e : Expr}
    (he : e.isDefinition = false) :
    e.perform A ρ = (e.eval A ρ).bind fun v => some ([v], ρ) := by
  cases e with
  | define s x declared e => simp [Expr.isDefinition] at he
  | _ => rfl

/-- **A statement does to the environment what its check does to the table**, and leaves what its
typed tree leaves. -/
theorem perform_of_check (A : Arithmetic) {shadowing : Shadowing} {Γ Γ' : Bindings} (hΓ : Γ.Sound)
    {e : Expr} {t : Typed} (h : e.check shadowing Γ = .ok (t, Γ')) :
    ∃ vs, t.results A = some vs ∧ e.perform A Γ.values = some (vs, Γ'.values) := by
  rcases check_cases h with ⟨he, hi, rfl⟩ | ⟨s, x, declared, vs, v, rfl, rfl, rfl⟩
  · obtain ⟨v, hv, -⟩ := (wellTyped_of_infer hΓ hi).exists_eval A
    refine ⟨[v], ?_, ?_⟩
    · rw [Typed.results, (wellTyped_of_infer hΓ hi).isDefinition, hv]
      rfl
    · rw [perform_expression A he, eval_of_infer A hi, hv]
      rfl
  · exact ⟨[], rfl, by rw [values_insert]; rfl⟩

/-- **Checking a program keeps its meaning**: the source leaves the values that the typed trees
leave. -/
theorem performAll_of_checkAll (A : Arithmetic) {shadowing : Shadowing} :
    ∀ {es : List Expr} {ts : List Typed} {Γ Γ' : Bindings}, Γ.Sound →
      checkAll shadowing Γ es = (.ok ts, Γ') → performAll A Γ.values es = resultsOf A ts
  | [], ts, Γ, Γ', _, h => by
    rw [(checkAll_nil_ok.mp h).1]
    rfl
  | [e], ts, Γ, Γ', hΓ, h => by
    obtain ⟨t, Γ₁, rest, he, hrest, rfl⟩ := checkAll_cons_ok.mp h
    obtain ⟨vs, hvs, hp⟩ := perform_of_check A hΓ he
    rw [(checkAll_nil_ok.mp hrest).1, performAll, hp]
    exact hvs.symm
  | e :: f :: es, ts, Γ, Γ', hΓ, h => by
    obtain ⟨t, Γ₁, rest, he, hrest, rfl⟩ := checkAll_cons_ok.mp h
    obtain ⟨vs, -, hp⟩ := perform_of_check A hΓ he
    have hΓ₁ : Γ₁.Sound := check_invariant (fun _ x v h => h.insert x v) e Γ t Γ₁ hΓ he
    have later := performAll_of_checkAll A hΓ₁ hrest
    obtain ⟨u, _, us, -, -, rfl⟩ := checkAll_cons_ok.mp hrest
    rw [performAll, hp]
    rw [resultsOf, List.getLast?_cons_cons]
    exact later

end ExprLang
