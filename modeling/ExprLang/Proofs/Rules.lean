/-
# The declared typing rules, and the checker that decides them

`HasType` and `StatementType` write the rules of the language down as derivations, one constructor a
rule, with the operand types spelled out and without a word about how they are checked: no order, no
error, no first failure.  `Annotates` says what a typed tree has to do with its source: the same
tree node for node, with a derived type at every node and the bound value at every name.

The checker computes exactly this.  `annotates_of_infer` is the way from its answers to derivations,
`infer_of_hasType` the way back.  Nothing here asks where the bindings come from, with one
exception: that no node is typed as an error needs `Bindings.Sound`, because a table may hold any
type for a name.
-/
import ExprLang.Proofs.Recovery

namespace ExprLang

/-! ## 1. The rules -/

/-- `HasType Γ e ty`: under the bindings `Γ` the expression `e` has the type `ty`.  There is no rule
for functions and none for definitions. -/
inductive HasType (Γ : Bindings) : Expr → Ty → Prop where
  | literal {s : Span} {v : Value} : HasType Γ (.literal s v) v.ty
  | ident {s : Span} {x : String} {b : Binding} : Γ.get? x = some b → HasType Γ (.ident s x) b.ty
  | neg {s : Span} {e : Expr} : HasType Γ e .number → HasType Γ (.unary s .neg e) .number
  | not {s : Span} {e : Expr} : HasType Γ e .bool → HasType Γ (.unary s .not e) .bool
  | arithmetic {s : Span} {op : BinaryOp} {l r : Expr} : op ∈ [BinaryOp.add, .sub, .mul, .div] →
      HasType Γ l .number → HasType Γ r .number → HasType Γ (.binary s op l r) .number
  | ordering {s : Span} {op : BinaryOp} {l r : Expr} : op ∈ [BinaryOp.lt, .le, .gt, .ge] →
      HasType Γ l .number → HasType Γ r .number → HasType Γ (.binary s op l r) .bool
  | equality {s : Span} {op : BinaryOp} {l r : Expr} {ty : Ty} : op ∈ [BinaryOp.eq, .ne] →
      HasType Γ l ty → HasType Γ r ty → HasType Γ (.binary s op l r) .bool
  | cond {s : Span} {c a b : Expr} {ty : Ty} :
      HasType Γ c .bool → HasType Γ a ty → HasType Γ b ty → HasType Γ (.cond s c a b) ty

/-- `StatementType shadowing Γ e ty`: the same for a whole statement, which may also be a definition
of a name by a literal. -/
inductive StatementType (shadowing : Shadowing) (Γ : Bindings) : Expr → Ty → Prop where
  | expression {e : Expr} {ty : Ty} : HasType Γ e ty → StatementType shadowing Γ e ty
  | definition {s vs : Span} {x : String} {declared : Option Ty} {v : Value} :
      declared = none ∨ declared = some v.ty → shadowing = .allow ∨ Γ.get? x = none →
        StatementType shadowing Γ (.define s x declared (.literal vs v)) .unit

/-- `Annotates Γ e t`: the typed tree `t` is `e` with a derived type at every node and with the
bound value at every name. -/
inductive Annotates (Γ : Bindings) : Expr → Typed → Prop where
  | literal {s : Span} {v : Value} {ty : Ty} : HasType Γ (.literal s v) ty →
      Annotates Γ (.literal s v) (.constant ⟨ty, s⟩ v)
  | ident {s : Span} {x : String} {b : Binding} {ty : Ty} : HasType Γ (.ident s x) ty →
      Γ.get? x = some b → Annotates Γ (.ident s x) (.ident ⟨ty, s⟩ x (some b.value))
  | unary {s : Span} {op : UnaryOp} {e : Expr} {t : Typed} {ty : Ty} :
      HasType Γ (.unary s op e) ty → Annotates Γ e t →
        Annotates Γ (.unary s op e) (.unary ⟨ty, s⟩ op t)
  | binary {s : Span} {op : BinaryOp} {l r : Expr} {tl tr : Typed} {ty : Ty} :
      HasType Γ (.binary s op l r) ty → Annotates Γ l tl → Annotates Γ r tr →
        Annotates Γ (.binary s op l r) (.binary ⟨ty, s⟩ op tl tr)
  | cond {s : Span} {c a b : Expr} {tc ta tb : Typed} {ty : Ty} :
      HasType Γ (.cond s c a b) ty → Annotates Γ c tc → Annotates Γ a ta → Annotates Γ b tb →
        Annotates Γ (.cond s c a b) (.cond ⟨ty, s⟩ tc ta tb)

/-- The same for a whole statement; a definition has the type `Unit` above its value. -/
inductive AnnotatesStatement (Γ : Bindings) : Expr → Typed → Prop where
  | expression {e : Expr} {t : Typed} : Annotates Γ e t → AnnotatesStatement Γ e t
  | definition {s : Span} {x : String} {declared : Option Ty} {e : Expr} {t : Typed} :
      Annotates Γ e t → AnnotatesStatement Γ (.define s x declared e) (.define ⟨.unit, s⟩ x t)

/-- All nodes of a typed tree, the tree itself first. -/
def Typed.nodes : Typed → List Typed
  | .constant i v => [.constant i v]
  | .ident i x v => [.ident i x v]
  | .unary i op e => .unary i op e :: e.nodes
  | .binary i op l r => .binary i op l r :: (l.nodes ++ r.nodes)
  | .cond i c a b => .cond i c a b :: (c.nodes ++ a.nodes ++ b.nodes)
  | .lambda i => [.lambda i]
  | .define i x e => .define i x e :: e.nodes

/-! ## 2. The rule of an operator -/

section Operators

variable {Γ : Bindings} {s : Span} {ty : Ty}

theorem hasType_unary_iff {op : UnaryOp} {e : Expr} :
    HasType Γ (.unary s op e) ty ↔ HasType Γ e op.ty ∧ ty = op.ty := by
  constructor
  · intro h
    cases h with
    | neg he => exact ⟨he, rfl⟩
    | not he => exact ⟨he, rfl⟩
  · rintro ⟨he, rfl⟩
    cases op with
    | neg => exact .neg he
    | not => exact .not he

theorem hasType_binary_iff {op : BinaryOp} {l r : Expr} :
    HasType Γ (.binary s op l r) ty ↔
      ∃ left right, HasType Γ l left ∧ HasType Γ r right ∧ op.apply left right = .ok ty := by
  constructor
  · intro h
    cases h with
    | arithmetic hop hl hr =>
      exact ⟨_, _, hl, hr, apply_eq_ok_iff.mpr (Or.inl ⟨hop, rfl, rfl, rfl⟩)⟩
    | ordering hop hl hr =>
      exact ⟨_, _, hl, hr, apply_eq_ok_iff.mpr (Or.inr (Or.inl ⟨hop, rfl, rfl, rfl⟩))⟩
    | equality hop hl hr =>
      exact ⟨_, _, hl, hr, apply_eq_ok_iff.mpr (Or.inr (Or.inr ⟨hop, rfl, rfl⟩))⟩
  · rintro ⟨left, right, hl, hr, h⟩
    rcases apply_eq_ok_iff.mp h with ⟨hop, rfl, rfl, rfl⟩ | ⟨hop, rfl, rfl, rfl⟩ | ⟨hop, rfl, rfl⟩
    · exact .arithmetic hop hl hr
    · exact .ordering hop hl hr
    · exact .equality hop hl hr

end Operators

/-! ## 3. Expressions: the checker finds the derivation -/

section Expressions

variable {Γ : Bindings}

/-- The type at the root of an annotated tree is a derived one. -/
theorem Annotates.hasType {e : Expr} {t : Typed} (h : Annotates Γ e t) : HasType Γ e t.ty := by
  cases h with
  | literal h => exact h
  | ident h _ => exact h
  | unary h _ => exact h
  | binary h _ _ => exact h
  | cond h _ _ _ => exact h

/-- **Soundness.**  What the checker answers is the expression with derived annotations. -/
theorem annotates_of_infer {e : Expr} {t : Typed} (h : e.infer Γ = .ok t) : Annotates Γ e t := by
  induction e generalizing t with
  | literal s v =>
    rw [infer_literal_ok.mp h]
    exact .literal .literal
  | ident s x =>
    obtain ⟨b, hb, rfl⟩ := infer_ident_ok.mp h
    exact .ident (.ident hb) hb
  | unary s op e ih =>
    obtain ⟨u, hu, hty, rfl⟩ := infer_unary_ok.mp h
    have he : HasType Γ e op.ty := hty ▸ (ih hu).hasType
    exact .unary (hasType_unary_iff.mpr ⟨he, rfl⟩) (ih hu)
  | binary s op l r ihl ihr =>
    obtain ⟨tl, tr, ty, hl, hr, hty, rfl⟩ := infer_binary_ok.mp h
    have hty' : HasType Γ (.binary s op l r) ty :=
      hasType_binary_iff.mpr ⟨tl.ty, tr.ty, (ihl hl).hasType, (ihr hr).hasType, hty⟩
    exact .binary hty' (ihl hl) (ihr hr)
  | cond s c a b ihc iha ihb =>
    obtain ⟨tc, ta, tb, hc, ha, hb, hbool, hty, rfl⟩ := infer_cond_ok.mp h
    have hc' : HasType Γ c .bool := hbool ▸ (ihc hc).hasType
    have hb' : HasType Γ b ta.ty := hty ▸ (ihb hb).hasType
    exact .cond (.cond hc' (iha ha).hasType hb') (ihc hc) (iha ha) (ihb hb)
  | lambda s params body => exact absurd h infer_lambda_ne_ok
  | define s x declared e => exact absurd h infer_define_ne_ok

/-- **Completeness.**  An expression with a derivation is accepted, at the derived type. -/
theorem infer_of_hasType {e : Expr} {ty : Ty} (h : HasType Γ e ty) :
    ∃ t, e.infer Γ = .ok t ∧ t.ty = ty := by
  -- induction on the expression, not on the derivation: three rules share the binary node
  induction e generalizing ty with
  | literal s v =>
    cases h
    exact ⟨_, infer_literal_ok.mpr rfl, rfl⟩
  | ident s x =>
    cases h with
    | ident hb => exact ⟨_, infer_ident_ok.mpr ⟨_, hb, rfl⟩, rfl⟩
  | unary s op e ih =>
    obtain ⟨he, rfl⟩ := hasType_unary_iff.mp h
    obtain ⟨u, hu, hty⟩ := ih he
    exact ⟨_, infer_unary_ok.mpr ⟨u, hu, hty, rfl⟩, rfl⟩
  | binary s op l r ihl ihr =>
    obtain ⟨left, right, hl, hr, hty⟩ := hasType_binary_iff.mp h
    obtain ⟨tl, htl, rfl⟩ := ihl hl
    obtain ⟨tr, htr, rfl⟩ := ihr hr
    exact ⟨_, infer_binary_ok.mpr ⟨tl, tr, ty, htl, htr, hty, rfl⟩, rfl⟩
  | cond s c a b ihc iha ihb =>
    cases h with
    | cond hc ha hb =>
      obtain ⟨tc, htc, hbool⟩ := ihc hc
      obtain ⟨ta, hta, rfl⟩ := iha ha
      obtain ⟨tb, htb, hty⟩ := ihb hb
      exact ⟨_, infer_cond_ok.mpr ⟨tc, ta, tb, htc, hta, htb, hbool, hty.symm, rfl⟩, rfl⟩
  | lambda s params body => cases h
  | define s x declared e => cases h

/-- **Types are unique.** -/
theorem HasType.unique {e : Expr} {ty ty' : Ty} (h : HasType Γ e ty) (h' : HasType Γ e ty') :
    ty = ty' := by
  obtain ⟨t, ht, rfl⟩ := infer_of_hasType h
  obtain ⟨t', ht', rfl⟩ := infer_of_hasType h'
  rw [ht, Except.ok.injEq] at ht'
  rw [ht']

/-- Under a sound table nothing has the type of errors: it is the type of no value and the result of
no operator. -/
theorem HasType.ne_error (hΓ : Γ.Sound) {e : Expr} {ty : Ty} (h : HasType Γ e ty) :
    ty ≠ .error := by
  induction h with
  | literal => exact Value.ty_ne_error _
  | ident hb =>
    rw [hΓ _ _ hb]
    exact Value.ty_ne_error _
  | neg _ _ => decide
  | not _ _ => decide
  | arithmetic _ _ _ _ _ => decide
  | ordering _ _ _ _ _ => decide
  | equality _ _ _ _ _ => decide
  | cond _ _ _ _ iha _ => exact iha

theorem Annotates.nodes_ne_error (hΓ : Γ.Sound) {e : Expr} {t : Typed} (h : Annotates Γ e t) :
    ∀ u ∈ t.nodes, u.ty ≠ .error := by
  have root := h.hasType.ne_error hΓ
  induction h with
  | literal _ => simpa [Typed.nodes] using root
  | ident _ _ => simpa [Typed.nodes] using root
  | unary _ he ih =>
    intro u hu
    rcases List.mem_cons.mp hu with rfl | hu
    · exact root
    · exact ih (he.hasType.ne_error hΓ) u hu
  | binary _ hl hr ihl ihr =>
    intro u hu
    rcases List.mem_cons.mp hu with rfl | hu
    · exact root
    · rcases List.mem_append.mp hu with hu | hu
      · exact ihl (hl.hasType.ne_error hΓ) u hu
      · exact ihr (hr.hasType.ne_error hΓ) u hu
  | cond _ hc ha hb ihc iha ihb =>
    intro u hu
    rcases List.mem_cons.mp hu with rfl | hu
    · exact root
    · rcases List.mem_append.mp hu with hu | hu
      · rcases List.mem_append.mp hu with hu | hu
        · exact ihc (hc.hasType.ne_error hΓ) u hu
        · exact iha (ha.hasType.ne_error hΓ) u hu
      · exact ihb (hb.hasType.ne_error hΓ) u hu

end Expressions

/-! ## 4. Statements -/

section Statements

variable {shadowing : Shadowing} {Γ Γ' : Bindings} {e : Expr} {t : Typed}

theorem isDefinition_of_hasType {ty : Ty} (h : HasType Γ e ty) : e.isDefinition = false := by
  cases h <;> rfl

/-- An accepted statement has the type of its tree, and the tree is its annotation. -/
theorem statementType_of_check (h : e.check shadowing Γ = .ok (t, Γ')) :
    StatementType shadowing Γ e t.ty ∧ AnnotatesStatement Γ e t := by
  cases e with
  | define s x declared e =>
    obtain ⟨vs, v, rfl, hd, hx, rfl, -⟩ := check_define_ok.mp h
    exact ⟨.definition hd hx, .definition (.literal .literal)⟩
  | _ =>
    obtain ⟨hi, -⟩ := (check_expression_ok rfl).mp h
    have ha := annotates_of_infer hi
    exact ⟨.expression ha.hasType, .expression ha⟩

/-- A statement with a derivation is accepted. -/
theorem check_of_statementType {ty : Ty} (h : StatementType shadowing Γ e ty) :
    ∃ t Γ', e.check shadowing Γ = .ok (t, Γ') ∧ t.ty = ty := by
  cases h with
  | expression h =>
    obtain ⟨t, ht, hty⟩ := infer_of_hasType h
    exact ⟨t, Γ, (check_expression_ok (isDefinition_of_hasType h)).mpr ⟨ht, rfl⟩, hty⟩
  | definition hd hx => exact ⟨_, _, check_define_ok.mpr ⟨_, _, rfl, hd, hx, rfl, rfl⟩, rfl⟩

theorem AnnotatesStatement.nodes_ne_error (hΓ : Γ.Sound) (h : AnnotatesStatement Γ e t) :
    ∀ u ∈ t.nodes, u.ty ≠ .error := by
  cases h with
  | expression h => exact h.nodes_ne_error hΓ
  | definition h =>
    intro u hu
    rcases List.mem_cons.mp hu with rfl | hu
    · exact fun h => Ty.noConfusion h
    · exact h.nodes_ne_error hΓ u hu

end Statements

/-! ## 5. The checker of a session -/

/-- **A session accepts exactly the statements with a derivation.**  The typed tree has the derived
type and is the statement annotated node for node; no node of it has the type of errors.  A pass
that goes on after mistakes answers the same and leaves the same session. -/
theorem Session.check_decides_rules {s : Session} (hs : s.Reachable) (e : Expr) :
    ((∃ t s', s.check e = (.ok t, s')) ↔ ∃ ty, StatementType s.shadowing s.bindings e ty) ∧
      (∀ t s' ty, s.check e = (.ok t, s') → StatementType s.shadowing s.bindings e ty →
        t.ty = ty ∧ AnnotatesStatement s.bindings e t ∧ ∀ u ∈ t.nodes, u.ty ≠ .error) ∧
      s.onePass [e] = ((s.check e).1.map ([·]), (s.check e).2) := by
  refine ⟨⟨?_, ?_⟩, ?_, ?_⟩
  · rintro ⟨t, s', h⟩
    obtain ⟨Γ, hc, -⟩ := check_ok.mp h
    exact ⟨t.ty, (statementType_of_check hc).1⟩
  · rintro ⟨ty, h⟩
    obtain ⟨t, Γ, hc, -⟩ := check_of_statementType h
    exact ⟨t, _, check_ok.mpr ⟨Γ, hc, rfl⟩⟩
  · intro t s' ty h hty
    obtain ⟨Γ, hc, -⟩ := check_ok.mp h
    obtain ⟨u, Γ', hu, rfl⟩ := check_of_statementType hty
    rw [hc, Except.ok.injEq, Prod.mk.injEq] at hu
    have ha := (statementType_of_check hc).2
    exact ⟨by rw [hu.1], ha, ha.nodes_ne_error hs.sound⟩
  · rw [onePass_eq_checkProgram hs.sound, checkProgram_singleton]

/-- After `n` was bound to a number, `if n < n then () else ()` is derived and accepted at
`Unit`. -/
theorem Session.check_decides_rules_comparison :
    let s := (Session.new none .forbid).run [.define "n" (.number ⟨0⟩)]
    let e := Expr.cond .zero (.binary .zero .lt (.ident .zero "n") (.ident .zero "n"))
      (.literal .zero .unit) (.literal .zero .unit)
    s.Reachable ∧ StatementType s.shadowing s.bindings e .unit ∧
      ∃ t s', s.check e = (.ok t, s') ∧ s.onePass [e] = (.ok [t], s') ∧ t.ty = .unit ∧
        AnnotatesStatement s.bindings e t ∧ ∀ u ∈ t.nodes, u.ty ≠ .error := by
  intro s e
  have hs : s.Reachable := ⟨none, .forbid, [.define "n" (.number ⟨0⟩)], rfl⟩
  have hn : HasType s.bindings (.ident .zero "n") .number :=
    .ident (b := ⟨.number, .number ⟨0⟩⟩) rfl
  have he : StatementType s.shadowing s.bindings e .unit :=
    .expression (.cond (.ordering (by decide) hn hn) .literal .literal)
  obtain ⟨accepts, annotates, onePass⟩ := Session.check_decides_rules hs e
  obtain ⟨t, s', h⟩ := accepts.mpr ⟨.unit, he⟩
  rw [h] at onePass
  exact ⟨hs, he, t, s', h, onePass, annotates t s' .unit h he⟩

end ExprLang
