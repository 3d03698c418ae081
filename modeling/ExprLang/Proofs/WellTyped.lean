/-
# Well-typed trees

A typed tree can be built by hand, with any annotation at any node.  `Typed.WellTyped` says when the
annotations are right, from the tree alone: it mentions neither a source nor bindings, so it still
holds of a tree long after the session that checked it has moved on.

The code generator is correct for these trees and for no others.  All that the rest of the
development uses of the checker is `wellTyped_of_infer` and, for lists of statements,
`Session.Delivers.wellTyped`.
-/
import ExprLang.Proofs.Runs

namespace ExprLang

namespace Typed

/-- Every leaf has the type of its value, every inner node the type that its rule gives, and nothing
is left out: no function, no definition, no unresolved name. -/
inductive WellTyped : Typed → Prop where
  | constant {s : Span} {v : Value} : WellTyped (.constant ⟨v.ty, s⟩ v)
  | ident {s : Span} {x : String} {v : Value} : WellTyped (.ident ⟨v.ty, s⟩ x (some v))
  | unary {s : Span} {op : UnaryOp} {e : Typed} : WellTyped e → e.ty = op.ty →
      WellTyped (.unary ⟨op.ty, s⟩ op e)
  | binary {s : Span} {op : BinaryOp} {l r : Typed} {ty : Ty} : WellTyped l → WellTyped r →
      op.apply l.ty r.ty = .ok ty → WellTyped (.binary ⟨ty, s⟩ op l r)
  | cond {s : Span} {c a b : Typed} : WellTyped c → WellTyped a → WellTyped b → c.ty = .bool →
      a.ty = b.ty → WellTyped (.cond ⟨a.ty, s⟩ c a b)

/-- A statement is an expression, or the definition of a name by a literal. -/
inductive WellTypedStatement : Typed → Prop where
  | expression {t : Typed} : WellTyped t → WellTypedStatement t
  | definition {s vs : Span} {x : String} {v : Value} :
      WellTypedStatement (.define ⟨.unit, s⟩ x (.constant ⟨v.ty, vs⟩ v))

end Typed

/-- The result of an operator is never the type of errors. -/
theorem apply_ne_error {op : BinaryOp} {left right ty : Ty} (h : op.apply left right = .ok ty) :
    ty ≠ .error := by
  rcases apply_eq_ok_iff.mp h with ⟨-, -, -, rfl⟩ | ⟨-, -, -, rfl⟩ | ⟨-, -, rfl⟩
  · decide
  · decide
  · decide

namespace Typed

theorem WellTyped.ty_ne_error {t : Typed} (h : t.WellTyped) : t.ty ≠ .error := by
  induction h with
  | constant => exact Value.ty_ne_error _
  | ident => exact Value.ty_ne_error _
  | @unary s op e _ _ _ => cases op <;> exact fun h => Ty.noConfusion h
  | binary _ _ hty _ _ => exact apply_ne_error hty
  | cond _ _ _ _ _ _ iha _ => exact iha

theorem WellTyped.isDefinition {t : Typed} (h : t.WellTyped) : t.isDefinition = false := by
  cases h <;> rfl

theorem WellTypedStatement.wellTyped {t : Typed} (h : t.WellTypedStatement)
    (hd : t.isDefinition = false) : t.WellTyped := by
  cases h with
  | expression h => exact h
  | definition => simp [Typed.isDefinition] at hd

end Typed

/-! ## What a statement leaves

The code of an expression leaves one value, that of a definition none; between statements the value
is dropped, so only the last one counts. -/

/-- The types of the values that a statement leaves on the stack. -/
def Typed.leaves (t : Typed) : List Ty := if t.isDefinition then [] else [t.ty]

/-- The types of the values that a list of statements leaves on the stack. -/
def exitStack (ts : List Typed) : List Ty := ts.getLast?.elim [] Typed.leaves

@[simp]
theorem exitStack_cons_cons (t u : Typed) (ts : List Typed) :
    exitStack (t :: u :: ts) = exitStack (u :: ts) := by
  rw [exitStack, exitStack, List.getLast?_cons_cons]

theorem Typed.WellTyped.leaves {t : Typed} (h : t.WellTyped) : t.leaves = [t.ty] := by
  rw [Typed.leaves, h.isDefinition, if_neg Bool.false_ne_true]

/-- A program that ends in an expression leaves one value, of the type of the program. -/
theorem exitStack_of_expression {ts : List Typed} {t : Typed} (h : ts.getLast? = some t)
    (hd : t.isDefinition = false) : exitStack ts = [programTy ts] := by
  rw [exitStack, programTy, h]
  exact if_neg (by rw [hd]; exact Bool.false_ne_true)

/-- **A program that ends in a definition, or is empty, leaves nothing**, and its type is the unit
type. -/
theorem exitStack_of_definition {ts : List Typed} (ht : ∀ t ∈ ts, t.WellTypedStatement)
    (hd : ∀ t, ts.getLast? = some t → t.isDefinition = true) :
    exitStack ts = [] ∧ programTy ts = .unit := by
  rw [exitStack, programTy]
  cases h : ts.getLast? with
  | none => exact ⟨rfl, rfl⟩
  | some t =>
    have htd := hd t h
    cases ht t (List.mem_of_getLast? h) with
    | expression he => simp [he.isDefinition] at htd
    | definition => exact ⟨rfl, rfl⟩

/-! ## What the checker delivers -/

/-- **Under a sound table the checker builds well-typed trees.**  A name is the one place where the
table is asked: its node gets the type that the table holds and the value that it holds. -/
theorem wellTyped_of_infer {Γ : Bindings} (hΓ : Γ.Sound) {e : Expr} {t : Typed}
    (h : e.infer Γ = .ok t) : t.WellTyped := by
  induction e generalizing t with
  | literal s v =>
    rw [infer_literal_ok.mp h]
    exact .constant
  | ident s x =>
    obtain ⟨b, hb, rfl⟩ := infer_ident_ok.mp h
    rw [hΓ x b hb]
    exact .ident
  | unary s op e ih =>
    obtain ⟨u, hu, hty, rfl⟩ := infer_unary_ok.mp h
    exact .unary (ih hu) hty
  | binary s op l r ihl ihr =>
    obtain ⟨tl, tr, ty, hl, hr, hty, rfl⟩ := infer_binary_ok.mp h
    exact .binary (ihl hl) (ihr hr) hty
  | cond s c a b ihc iha ihb =>
    obtain ⟨tc, ta, tb, hc, ha, hb, hbool, hty, rfl⟩ := infer_cond_ok.mp h
    exact .cond (ihc hc) (iha ha) (ihb hb) hbool hty
  | lambda s params body => exact absurd h infer_lambda_ne_ok
  | define s x declared e => exact absurd h infer_define_ne_ok

theorem wellTypedStatement_of_check {shadowing : Shadowing} {Γ Γ' : Bindings} (hΓ : Γ.Sound)
    {e : Expr} {t : Typed} (h : e.check shadowing Γ = .ok (t, Γ')) : t.WellTypedStatement := by
  rcases check_cases h with ⟨-, hi, -⟩ | ⟨s, x, declared, vs, v, -, rfl, -⟩
  · exact .expression (wellTyped_of_infer hΓ hi)
  · exact .definition

theorem wellTyped_of_checkAll {shadowing : Shadowing} {es : List Expr} {ts : List Typed}
    {Γ Γ' : Bindings} (hΓ : Γ.Sound) (h : checkAll shadowing Γ es = (.ok ts, Γ')) :
    ∀ t ∈ ts, t.WellTypedStatement := by
  induction es generalizing Γ ts with
  | nil =>
    rw [(checkAll_nil_ok.mp h).1]
    intro t ht
    exact absurd ht List.not_mem_nil
  | cons e es ih =>
    obtain ⟨t, Γ₁, rest, he, hrest, rfl⟩ := checkAll_cons_ok.mp h
    have hΓ₁ : Γ₁.Sound := check_invariant (fun _ x v h => h.insert x v) e Γ t Γ₁ hΓ he
    intro u hu
    rcases List.mem_cons.mp hu with rfl | hu
    · exact wellTypedStatement_of_check hΓ he
    · exact ih hΓ₁ hrest u hu

/-- **Every tree that a reachable session delivers is well typed.** -/
theorem Session.Delivers.wellTyped {s : Session} {ts : List Typed} (h : s.Delivers ts)
    (hs : s.Reachable) : ∀ t ∈ ts, t.WellTypedStatement := by
  obtain ⟨es, Γ, hc⟩ := h.exists_checkAll
  exact wellTyped_of_checkAll hs.sound hc

end ExprLang
