/-
# Runs of a session

What one statement can do, what a list of statements can do, and what a session looks like after any
sequence of calls.  Everything that is said about **reachable** sessions rests on this module: a
property of the bindings is proved of one accepted statement, then of `checkAll`, then of a call,
and then it holds after every run.

The property that matters first is `Bindings.Sound`: a name is bound at the type of its value.  The
table itself does not promise it, since a binding keeps a type and a value side by side.
-/
import ExprLang.Session

namespace ExprLang

/-! ## 1. Steps that can fail -/

section Outcome

variable {ε α β : Type}

/-- A sequence succeeds when both of its steps do. -/
theorem bind_eq_ok {x : Except ε α} {f : α → Except ε β} {b : β} :
    (x >>= f) = .ok b ↔ ∃ a, x = .ok a ∧ f a = .ok b := by
  cases x with
  | error e => simp [bind, Except.bind]
  | ok a => simp [bind, Except.bind]

/-- A sequence fails where the first of its steps does. -/
theorem bind_eq_error {x : Except ε α} {f : α → Except ε β} {e : ε} :
    (x >>= f) = .error e ↔ x = .error e ∨ ∃ a, x = .ok a ∧ f a = .error e := by
  cases x with
  | error e' => simp [bind, Except.bind]
  | ok a => simp [bind, Except.bind]

@[simp]
theorem ok_bind (a : α) (f : α → Except ε β) : (Except.ok a >>= f) = f a := rfl

@[simp]
theorem error_bind (e : ε) (f : α → Except ε β) : (Except.error e >>= f) = .error e := rfl

@[simp]
theorem throw_eq (e : ε) : (throw e : Except ε α) = .error e := rfl

@[simp]
theorem pure_eq (a : α) : (pure a : Except ε α) = .ok a := rfl

theorem map_eq_ok {x : Except ε α} {f : α → β} {b : β} :
    x.map f = .ok b ↔ ∃ a, x = .ok a ∧ f a = b := by
  cases x with
  | error e => simp [Except.map]
  | ok a => simp [Except.map]

theorem mapError_eq_ok {ε' : Type} {x : Except ε α} {f : ε → ε'} {a : α} :
    x.mapError f = .ok a ↔ x = .ok a := by
  cases x with
  | error e =>
    have : (Except.error e).mapError f = (.error (f e) : Except ε' α) := rfl
    simp [this]
  | ok b =>
    have : (Except.ok b).mapError f = (.ok b : Except ε' α) := rfl
    simp [this]

/-- A test that ends the sequence when it holds. -/
theorem guard_eq_ok {p : Prop} [Decidable p] {e : ε} {f : α → Except ε β} {x : Except ε β} {b : β} :
    (if p then throw e >>= f else x) = .ok b ↔ ¬ p ∧ x = .ok b := by
  by_cases h : p
  · simp [h]
  · simp [h]

end Outcome

theorem reportAt_eq_ok {α : Type} {s : Span} {x : Except TypeError.Cause α} {a : α} :
    reportAt s x = .ok a ↔ x = .ok a := by
  cases x with
  | error c => simp [reportAt]
  | ok b => simp [reportAt]

/-! ## 2. What it takes to type an expression, node by node -/

section Infer

variable {Γ : Bindings} {s : Span} {t : Typed}

attribute [local simp] Expr.infer BinaryOp.apply

theorem infer_literal_ok {v : Value} :
    (Expr.literal s v).infer Γ = .ok t ↔ t = .constant ⟨v.ty, s⟩ v := by
  rw [Expr.infer, Except.ok.injEq, eq_comm]

theorem infer_ident_ok {x : String} :
    (Expr.ident s x).infer Γ = .ok t ↔
      ∃ b, Γ.get? x = some b ∧ t = .ident ⟨b.ty, s⟩ x (some b.value) := by
  rw [Expr.infer]
  cases h : Γ.get? x with
  | none => simp
  | some b => simp [eq_comm]

theorem infer_unary_ok {op : UnaryOp} {e : Expr} :
    (Expr.unary s op e).infer Γ = .ok t ↔
      ∃ u, e.infer Γ = .ok u ∧ u.ty = op.ty ∧ t = .unary ⟨op.ty, s⟩ op u := by
  simp only [Expr.infer, bind_eq_ok, reportAt_eq_ok, UnaryOp.apply, pure_eq, Except.ok.injEq]
  constructor
  · rintro ⟨u, hu, ty, hty, rfl⟩
    split at hty
    · next h =>
      rw [Except.ok.injEq] at hty
      subst hty
      exact ⟨u, hu, h, rfl⟩
    · simp at hty
  · rintro ⟨u, hu, h, rfl⟩
    exact ⟨u, hu, op.ty, by rw [if_pos h], rfl⟩

/-- The table of signatures, read as three rules. -/
theorem apply_eq_ok_iff {op : BinaryOp} {left right ty : Ty} :
    op.apply left right = .ok ty ↔
      (op ∈ [BinaryOp.add, .sub, .mul, .div] ∧ left = .number ∧ right = .number ∧ ty = .number) ∨
      (op ∈ [BinaryOp.lt, .le, .gt, .ge] ∧ left = .number ∧ right = .number ∧ ty = .bool) ∨
      (op ∈ [BinaryOp.eq, .ne] ∧ left = right ∧ ty = .bool) := by
  have fits : ∀ (p : Prop) [Decidable p] (a : Ty) (c : TypeError.Cause),
      (if p then Except.ok a else .error c) = .ok ty ↔ p ∧ ty = a := by
    intro p _ a c
    by_cases hp : p
    · simp [hp, eq_comm]
    · simp [hp]
  cases op <;> simp [BinaryOp.signature?, fits, and_assoc]

theorem infer_binary_ok {op : BinaryOp} {l r : Expr} :
    (Expr.binary s op l r).infer Γ = .ok t ↔
      ∃ tl tr ty, l.infer Γ = .ok tl ∧ r.infer Γ = .ok tr ∧ op.apply tl.ty tr.ty = .ok ty ∧
        t = .binary ⟨ty, s⟩ op tl tr := by
  simp only [Expr.infer, bind_eq_ok, reportAt_eq_ok, pure_eq, Except.ok.injEq]
  constructor
  · rintro ⟨tl, hl, tr, hr, ty, hty, rfl⟩
    exact ⟨tl, tr, ty, hl, hr, hty, rfl⟩
  · rintro ⟨tl, tr, ty, hl, hr, hty, rfl⟩
    exact ⟨tl, hl, tr, hr, ty, hty, rfl⟩

theorem infer_cond_ok {c a b : Expr} :
    (Expr.cond s c a b).infer Γ = .ok t ↔
      ∃ tc ta tb, c.infer Γ = .ok tc ∧ a.infer Γ = .ok ta ∧ b.infer Γ = .ok tb ∧
        tc.ty = .bool ∧ ta.ty = tb.ty ∧ t = .cond ⟨ta.ty, s⟩ tc ta tb := by
  simp only [Expr.infer, bind_eq_ok, guard_eq_ok, ne_eq, Decidable.not_not, pure_eq,
    Except.ok.injEq]
  constructor
  · rintro ⟨tc, hc, ta, ha, tb, hb, hbool, hty, rfl⟩
    exact ⟨tc, ta, tb, hc, ha, hb, hbool, hty, rfl⟩
  · rintro ⟨tc, ta, tb, hc, ha, hb, hbool, hty, rfl⟩
    exact ⟨tc, hc, ta, ha, tb, hb, hbool, hty, rfl⟩

/-- No function is typed. -/
theorem infer_lambda_ne_ok {params : List String} {body : Expr} :
    (Expr.lambda s params body).infer Γ ≠ .ok t := by
  simp

/-- No definition is typed inside a statement. -/
theorem infer_define_ne_ok {x : String} {declared : Option Ty} {e : Expr} :
    (Expr.define s x declared e).infer Γ ≠ .ok t := by
  simp [bind_eq_ok]

end Infer

/-- **Only a literal is typed as a literal**, and it keeps its span and its value. -/
theorem eq_literal_of_infer {Γ : Bindings} {e : Expr} {t : Typed} {v : Value}
    (h : e.infer Γ = .ok t) (hv : t.literal? = some v) :
    ∃ s, e = .literal s v ∧ t = .constant ⟨v.ty, s⟩ v := by
  cases e with
  | literal s w =>
    rw [infer_literal_ok] at h
    subst h
    simp only [Typed.literal?, Option.some.injEq] at hv
    subst hv
    exact ⟨s, rfl, rfl⟩
  | ident s x =>
    obtain ⟨_, -, rfl⟩ := infer_ident_ok.mp h
    simp [Typed.literal?] at hv
  | unary s op e =>
    obtain ⟨_, -, -, rfl⟩ := infer_unary_ok.mp h
    simp [Typed.literal?] at hv
  | binary s op l r =>
    obtain ⟨_, _, _, -, -, -, rfl⟩ := infer_binary_ok.mp h
    simp [Typed.literal?] at hv
  | cond s c a b =>
    obtain ⟨_, _, _, -, -, -, -, -, rfl⟩ := infer_cond_ok.mp h
    simp [Typed.literal?] at hv
  | lambda s params body => exact absurd h infer_lambda_ne_ok
  | define s x declared e => exact absurd h infer_define_ne_ok

/-! ## 3. What an accepted statement does -/

section Check

variable {shadowing : Shadowing} {Γ Γ' : Bindings} {t : Typed}

attribute [local simp] Expr.isDefinition Expr.check declarationRule

theorem declarationRule_eq_ok {x : String} {declared : Option Ty} {ty : Ty} {u : Unit} :
    declarationRule x declared ty = .ok u ↔ declared = none ∨ declared = some ty := by
  cases declared with
  | none => simp
  | some d =>
    by_cases h : d = ty
    · simp [h]
    · simp [h]

/-- A statement that is no definition is typed as an expression and changes nothing. -/
theorem check_eq_infer {e : Expr} (he : e.isDefinition = false) :
    e.check shadowing Γ = (e.infer Γ).map (·, Γ) := by
  cases e with
  | define s x declared e => simp at he
  | _ => rfl

theorem check_expression_ok {e : Expr} (he : e.isDefinition = false) :
    e.check shadowing Γ = .ok (t, Γ') ↔ e.infer Γ = .ok t ∧ Γ' = Γ := by
  rw [check_eq_infer he, map_eq_ok]
  constructor
  · rintro ⟨u, hu, heq⟩
    obtain ⟨rfl, rfl⟩ := Prod.mk.inj heq
    exact ⟨hu, rfl⟩
  · rintro ⟨hu, rfl⟩
    exact ⟨t, hu, rfl⟩

/-- **A definition is accepted when its value is a literal, of the declared type if there is one,
and its name may be bound**; it then binds the name to the literal. -/
theorem check_define_ok {s : Span} {x : String} {declared : Option Ty} {e : Expr} :
    (Expr.define s x declared e).check shadowing Γ = .ok (t, Γ') ↔
      ∃ vs v, e = .literal vs v ∧ (declared = none ∨ declared = some v.ty) ∧
        (shadowing = .allow ∨ Γ.get? x = none) ∧
        t = .define ⟨.unit, s⟩ x (.constant ⟨v.ty, vs⟩ v) ∧ Γ' = Γ.insert x ⟨v.ty, v⟩ := by
  have bindable : ¬ (shadowing = .forbid ∧ Γ.contains x = true) ↔
      shadowing = .allow ∨ Γ.get? x = none := by
    cases shadowing <;> simp [Bindings.contains]
  simp only [Expr.check, bind_eq_ok, reportAt_eq_ok, declarationRule_eq_ok]
  constructor
  · rintro ⟨u, hu, -, hd, h⟩
    cases hv : u.literal? with
    | none => simp [hv] at h
    | some v =>
      obtain ⟨vs, rfl, rfl⟩ := eq_literal_of_infer hu hv
      rw [hv] at h
      simp only [guard_eq_ok, bindable, pure_eq, Except.ok.injEq, Prod.mk.injEq] at h
      obtain ⟨hb, rfl, rfl⟩ := h
      exact ⟨vs, v, rfl, hd, hb, rfl, rfl⟩
  · rintro ⟨vs, v, rfl, hd, hb, rfl, rfl⟩
    refine ⟨.constant ⟨v.ty, vs⟩ v, infer_literal_ok.mpr rfl, (), hd, ?_⟩
    simp only [Typed.literal?, guard_eq_ok, bindable]
    exact ⟨hb, rfl⟩

/-- Everything that an accepted statement can be and do. -/
theorem check_cases {e : Expr} (h : e.check shadowing Γ = .ok (t, Γ')) :
    (e.isDefinition = false ∧ e.infer Γ = .ok t ∧ Γ' = Γ) ∨
      ∃ s x declared vs v, e = .define s x declared (.literal vs v) ∧
        t = .define ⟨.unit, s⟩ x (.constant ⟨v.ty, vs⟩ v) ∧ Γ' = Γ.insert x ⟨v.ty, v⟩ := by
  cases he : e.isDefinition with
  | false =>
    obtain ⟨hi, hΓ⟩ := (check_expression_ok he).mp h
    exact Or.inl ⟨rfl, hi, hΓ⟩
  | true =>
    cases e with
    | define s x declared e =>
      obtain ⟨vs, v, rfl, -, -, ht, hΓ⟩ := check_define_ok.mp h
      exact Or.inr ⟨s, x, declared, vs, v, rfl, ht, hΓ⟩
    | _ => simp at he

/-- A typed statement is a definition exactly when its source is one. -/
theorem isDefinition_of_check {e : Expr} (h : e.check shadowing Γ = .ok (t, Γ')) :
    t.isDefinition = e.isDefinition := by
  rcases check_cases h with ⟨he, hi, -⟩ | ⟨s, x, declared, vs, v, rfl, rfl, -⟩
  · rw [he]
    cases e with
    | literal s v => rw [infer_literal_ok.mp hi]; rfl
    | ident s x => obtain ⟨_, -, rfl⟩ := infer_ident_ok.mp hi; rfl
    | unary s op e => obtain ⟨_, -, -, rfl⟩ := infer_unary_ok.mp hi; rfl
    | binary s op l r => obtain ⟨_, _, _, -, -, -, rfl⟩ := infer_binary_ok.mp hi; rfl
    | cond s c a b => obtain ⟨_, _, _, -, -, -, -, -, rfl⟩ := infer_cond_ok.mp hi; rfl
    | lambda s params body => exact absurd hi infer_lambda_ne_ok
    | define s x declared e => exact absurd hi infer_define_ne_ok
  · rfl

end Check

/-! ## 4. Lists of statements -/

section CheckAll

variable {shadowing : Shadowing} {Γ Γ' : Bindings} {e : Expr} {es : List Expr} {ts : List Typed}

attribute [local simp] checkAll

theorem checkAll_nil_ok : checkAll shadowing Γ [] = (.ok ts, Γ') ↔ ts = [] ∧ Γ' = Γ := by
  simp [eq_comm]

/-- A list is accepted when its first statement is, and the rest under the bindings after it. -/
theorem checkAll_cons_ok :
    checkAll shadowing Γ (e :: es) = (.ok ts, Γ') ↔
      ∃ t Γ₁ rest, e.check shadowing Γ = .ok (t, Γ₁) ∧
        checkAll shadowing Γ₁ es = (.ok rest, Γ') ∧ ts = t :: rest := by
  rw [checkAll]
  cases he : e.check shadowing Γ with
  | error err =>
    cases hr : checkAll shadowing Γ es with
    | mk outcome Γ₁ => cases outcome <;> simp [Checked.cons]
  | ok p =>
    obtain ⟨t, Γ₁⟩ := p
    cases hr : checkAll shadowing Γ₁ es with
    | mk outcome Γ₂ =>
      cases outcome with
      | error errs => simp [Checked.cons, hr]
      | ok rest =>
        simp only [hr, Checked.cons, Prod.mk.injEq, Except.ok.injEq]
        constructor
        · rintro ⟨rfl, rfl⟩
          exact ⟨t, Γ₁, rest, ⟨rfl, rfl⟩, hr, rfl⟩
        · rintro ⟨t', Γ₁', rest', ⟨rfl, rfl⟩, hr', rfl⟩
          rw [hr, Prod.mk.injEq, Except.ok.injEq] at hr'
          exact ⟨by rw [hr'.1], hr'.2⟩

/-- A program and its typed trees define names at the same places. -/
theorem isDefinition_of_checkAll {es : List Expr} (h : checkAll shadowing Γ es = (.ok ts, Γ')) :
    ts.map Typed.isDefinition = es.map Expr.isDefinition := by
  induction es generalizing Γ ts with
  | nil => rw [(checkAll_nil_ok.mp h).1, List.map_nil, List.map_nil]
  | cons e es ih =>
    obtain ⟨t, Γ₁, rest, he, hrest, rfl⟩ := checkAll_cons_ok.mp h
    rw [List.map_cons, List.map_cons, isDefinition_of_check he, ih hrest]

/-- What every accepted statement keeps, a list keeps, also when some of its statements fail. -/
theorem checkAll_invariant {P : Bindings → Prop}
    (step : ∀ e Γ t Γ', P Γ → Expr.check shadowing Γ e = .ok (t, Γ') → P Γ') :
    ∀ (es : List Expr) (Γ : Bindings), P Γ → P (checkAll shadowing Γ es).2
  | [], _, h => h
  | e :: es, Γ, h => by
    rw [checkAll]
    cases he : e.check shadowing Γ with
    | error err => exact checkAll_invariant step es Γ h
    | ok p => exact checkAll_invariant step es p.2 (step e Γ p.1 p.2 h he)

end CheckAll

/-! ## 5. Bindings at the types of their values -/

/-- Every name is bound at the type of its value. -/
def Bindings.Sound (Γ : Bindings) : Prop := ∀ x b, Γ.get? x = some b → b.ty = b.value.ty

theorem Bindings.sound_empty : Bindings.empty.Sound := by
  intro x b h
  simp at h

theorem Bindings.Sound.insert {Γ : Bindings} (h : Γ.Sound) (x : String) (v : Value) :
    (Γ.insert x ⟨v.ty, v⟩).Sound := by
  intro y b hb
  rw [get?_insert] at hb
  split at hb
  · rw [Option.some.injEq] at hb
    rw [← hb]
  · exact h y b hb

/-- **All that an accepted statement can do to a table is to bind a name to a value, at its
type.** -/
theorem check_invariant {P : Bindings → Prop}
    (insert : ∀ Γ x v, P Γ → P (Bindings.insert Γ x ⟨Value.ty v, v⟩)) {shadowing : Shadowing}
    (e : Expr) (Γ : Bindings) (t : Typed) (Γ' : Bindings) (h : P Γ)
    (hc : e.check shadowing Γ = .ok (t, Γ')) : P Γ' := by
  rcases check_cases hc with ⟨-, -, rfl⟩ | ⟨s, x, declared, vs, v, -, -, rfl⟩
  · exact h
  · exact insert Γ x v h

/-! ## 6. Calls -/

namespace Session

/-- The calls that can change a session; all others only read it. -/
inductive Call where
  | define (x : String) (v : Value)
  | check (e : Expr)
  | checkProgram (es : List Expr)
  | compile (e : Expr)
  | compileProgram (es : List Expr)

/-- The session after a call, whatever the call answers. -/
def after (s : Session) : Call → Session
  | .define x v => s.define x v
  | .check e => (s.check e).2
  | .checkProgram es => (s.checkProgram es).2
  | .compile e => (s.compile e).2
  | .compileProgram es => (s.compileProgram es).2

/-- The session after a sequence of calls. -/
def run (s : Session) (calls : List Call) : Session := calls.foldl after s

/-- A session that some sequence of calls leads to, from a new one with any source and policy. -/
def Reachable (s : Session) : Prop :=
  ∃ source shadowing calls, s = (new source shadowing).run calls

/-- The trees that a successful check of the session hands over: those of a list of statements, or
that of a single one. -/
def Delivers (s : Session) (ts : List Typed) : Prop :=
  (∃ es s', s.checkProgram es = (.ok ts, s')) ∨ ∃ e t s', s.check e = (.ok t, s') ∧ ts = [t]

theorem check_ok {s s' : Session} {e : Expr} {t : Typed} :
    s.check e = (.ok t, s') ↔
      ∃ Γ, e.check s.shadowing s.bindings = .ok (t, Γ) ∧ s' = { s with bindings := Γ } := by
  rw [check]
  cases h : e.check s.shadowing s.bindings with
  | error err => simp
  | ok p =>
    obtain ⟨u, Γ⟩ := p
    simp only [Prod.mk.injEq, Except.ok.injEq]
    constructor
    · rintro ⟨rfl, rfl⟩
      exact ⟨Γ, ⟨rfl, rfl⟩, rfl⟩
    · rintro ⟨Γ', ⟨rfl, rfl⟩, rfl⟩
      exact ⟨rfl, rfl⟩

theorem check_error {s s' : Session} {e : Expr} {errs : List TypeError} :
    s.check e = (.error errs, s') ↔
      ∃ err, e.check s.shadowing s.bindings = .error err ∧ errs = [err] ∧ s' = s := by
  rw [check]
  cases h : e.check s.shadowing s.bindings with
  | ok p => simp
  | error err =>
    simp only [Prod.mk.injEq, Except.error.injEq]
    constructor
    · rintro ⟨rfl, rfl⟩
      exact ⟨err, rfl, rfl, rfl⟩
    · rintro ⟨err', rfl, rfl, rfl⟩
      exact ⟨rfl, rfl⟩

theorem checkProgram_ok {s s' : Session} {es : List Expr} {ts : List Typed} :
    s.checkProgram es = (.ok ts, s') ↔
      ∃ Γ, checkAll s.shadowing s.bindings es = (.ok ts, Γ) ∧ s' = { s with bindings := Γ } := by
  rw [checkProgram]
  cases h : checkAll s.shadowing s.bindings es with
  | mk outcome Γ =>
    simp only [Prod.mk.injEq]
    constructor
    · rintro ⟨rfl, rfl⟩
      exact ⟨Γ, ⟨rfl, rfl⟩, rfl⟩
    · rintro ⟨Γ', ⟨rfl, rfl⟩, rfl⟩
      exact ⟨rfl, rfl⟩

/-- **One statement is a program of one statement.** -/
theorem checkProgram_singleton (s : Session) (e : Expr) :
    s.checkProgram [e] = ((s.check e).1.map ([·]), (s.check e).2) := by
  rw [checkProgram, check, checkAll]
  cases h : e.check s.shadowing s.bindings with
  | error err => rfl
  | ok p => rfl

theorem generate_eq_generateProgram (s : Session) (t : Typed) :
    s.generate t = s.generateProgram [t] := rfl

theorem generateProgram_ok {s : Session} {ts : List Typed} {ty : Ty} {c : Bytecode}
    (h : s.generateProgram ts = .ok (ty, c)) :
    Bytecode.ofProgram s.lines ts = .ok c ∧ ty = programTy ts := by
  obtain ⟨c₁, hcode, heq⟩ := map_eq_ok.mp h
  obtain ⟨rfl, rfl⟩ := Prod.mk.inj heq
  exact ⟨hcode, rfl⟩

theorem compile_eq_compileProgram (s : Session) (e : Expr) :
    s.compile e = s.compileProgram [e] := by
  rw [compileProgram, checkProgram_singleton, compile]
  cases h : s.check e with
  | mk outcome s' =>
    cases outcome with
    | error errs => rfl
    | ok t => rfl

/-- Whatever a successful check hands over, some list of statements was accepted. -/
theorem Delivers.exists_checkAll {s : Session} {ts : List Typed} (h : s.Delivers ts) :
    ∃ es Γ, checkAll s.shadowing s.bindings es = (.ok ts, Γ) := by
  rcases h with ⟨es, s', h⟩ | ⟨e, t, s', h, rfl⟩
  · obtain ⟨Γ, hΓ, -⟩ := checkProgram_ok.mp h
    exact ⟨es, Γ, hΓ⟩
  · have hp : s.checkProgram [e] = (.ok [t], s') := by
      rw [checkProgram_singleton, h]
      rfl
    obtain ⟨Γ, hΓ, -⟩ := checkProgram_ok.mp hp
    exact ⟨[e], Γ, hΓ⟩

/-- **Compiling is checking, then generating code.** -/
theorem compileProgram_ok {s s' : Session} {es : List Expr} {ty : Ty} {c : Bytecode}
    (h : s.compileProgram es = (.ok (ty, c), s')) :
    ∃ ts Γ, checkAll s.shadowing s.bindings es = (.ok ts, Γ) ∧
      Bytecode.ofProgram s.lines ts = .ok c ∧ ty = programTy ts := by
  rw [compileProgram] at h
  split at h
  · next ts s₁ hcheck =>
    obtain ⟨Γ, hΓ, rfl⟩ := checkProgram_ok.mp hcheck
    rw [Prod.mk.injEq, mapError_eq_ok] at h
    obtain ⟨hcode, hty⟩ := generateProgram_ok h.1
    exact ⟨ts, Γ, hΓ, hcode, hty⟩
  · simp at h

/-- Generating code leaves the session of the check as it is. -/
theorem compileProgram_snd (s : Session) (es : List Expr) :
    (s.compileProgram es).2 = (s.checkProgram es).2 := by
  rw [compileProgram]
  cases h : s.checkProgram es with
  | mk outcome s' => cases outcome <;> rfl

/-- **What binding a name keeps, every run keeps.** -/
theorem run_invariant {P : Bindings → Prop}
    (insert : ∀ Γ x v, P Γ → P (Bindings.insert Γ x ⟨Value.ty v, v⟩)) :
    ∀ (calls : List Call) (s : Session), P s.bindings → P (s.run calls).bindings
  | [], _, h => h
  | call :: calls, s, h => by
    have program : ∀ es, P (s.checkProgram es).2.bindings := fun es =>
      checkAll_invariant (check_invariant insert) es s.bindings h
    have single : ∀ e, (s.checkProgram [e]).2 = (s.check e).2 := fun e => by
      rw [checkProgram_singleton]
    refine run_invariant insert calls (s.after call) ?_
    cases call with
    | define x v => exact insert s.bindings x v h
    | check e => rw [after, ← single]; exact program [e]
    | checkProgram es => exact program es
    | compile e => rw [after, compile_eq_compileProgram, compileProgram_snd]; exact program [e]
    | compileProgram es => rw [after, compileProgram_snd]; exact program es

/-- **In every reachable session each name is bound at the type of its value.** -/
theorem Reachable.sound {s : Session} (h : s.Reachable) : s.bindings.Sound := by
  obtain ⟨source, shadowing, calls, rfl⟩ := h
  exact run_invariant (fun _ x v hΓ => hΓ.insert x v) calls (new source shadowing)
    Bindings.sound_empty

end Session

end ExprLang
