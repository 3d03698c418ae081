/-
# Checking is local

The checker asks the table for the names that a statement mentions, and for no others.  `Expr.reads`
lists them: the identifiers outside functions, and the name that the statement defines if it is a
definition.  Two tables that agree on these names give the same answer, and the same change is made
to both (`Session.checking_is_local`).

The name of a definition **inside** a statement is not among them.  A pass that goes on after a
mistake does ask whether it is bound, but it has reported the place of the definition before, so the
answer to the question cannot be seen.
-/
import ExprLang.Proofs.Statements

namespace ExprLang

/-! ## 1. The names that are read -/

/-- The identifiers of an expression, without those in bodies of functions. -/
def Expr.identifiers : Expr → List String
  | .literal _ _ => []
  | .ident _ x => [x]
  | .unary _ _ e => e.identifiers
  | .binary _ _ l r => l.identifiers ++ r.identifiers
  | .cond _ c a b => c.identifiers ++ (a.identifiers ++ b.identifiers)
  | .lambda _ _ _ => []
  | .define _ _ _ e => e.identifiers

/-- The name that a statement defines. -/
def Expr.defined? : Expr → Option String
  | .define _ x _ _ => some x
  | _ => none

/-- The names that a statement reads. -/
def Expr.reads (e : Expr) : List String := e.identifiers ++ e.defined?.toList

/-- Both tables leave a name unbound or bind it alike, for every name of the list. -/
def Bindings.AgreeOn (names : List String) (Γ Δ : Bindings) : Prop :=
  ∀ x ∈ names, Γ.get? x = Δ.get? x

namespace Bindings.AgreeOn

variable {a b : List String} {Γ Δ : Bindings}

theorem left (h : AgreeOn (a ++ b) Γ Δ) : AgreeOn a Γ Δ :=
  fun x hx => h x (List.mem_append_left b hx)

theorem right (h : AgreeOn (a ++ b) Γ Δ) : AgreeOn b Γ Δ :=
  fun x hx => h x (List.mem_append_right a hx)

/-- A name that is not read may be bound to anything. -/
theorem insert {y : String} (h : y ∉ a) (Γ : Bindings) (c : Binding) :
    AgreeOn a (Γ.insert y c) Γ := by
  intro x hx
  have hxy : x ≠ y := fun heq => h (heq ▸ hx)
  rw [get?_insert, if_neg hxy]

end Bindings.AgreeOn

/-! ## 2. The checker reads no others -/

section Check

variable {Γ Δ : Bindings}

theorem infer_congr {e : Expr} (h : Γ.AgreeOn e.identifiers Δ) : e.infer Γ = e.infer Δ := by
  induction e with
  | literal s v => rfl
  | ident s x => rw [Expr.infer, Expr.infer, h x (List.mem_singleton_self x)]
  | unary s op e ih => rw [Expr.infer, Expr.infer, ih h]
  | binary s op l r ihl ihr => rw [Expr.infer, Expr.infer, ihl h.left, ihr h.right]
  | cond s c a b ihc iha ihb =>
    rw [Expr.infer, Expr.infer, ihc h.left, iha h.right.left, ihb h.right.right]
  | lambda s params body => rfl
  | define s x declared e ih => rw [Expr.infer, Expr.infer, ih h]

/-- **A statement is checked by what the table says of the names that it reads.** -/
theorem check_congr {e : Expr} (h : Γ.AgreeOn e.reads Δ) (shadowing : Shadowing) :
    (e.check shadowing Γ).map Prod.fst = (e.check shadowing Δ).map Prod.fst := by
  have map_bind : ∀ {α β : Type} (x : Except TypeError α) (f : α → Except TypeError (Typed × β)),
      (x >>= f).map Prod.fst = x >>= fun a => (f a).map Prod.fst := by
    intro α β x f
    cases x <;> rfl
  cases e with
  | define s x declared e =>
    have value : e.infer Γ = e.infer Δ := infer_congr h.left
    have bound : Γ.contains x = Δ.contains x := by
      rw [Bindings.contains, Bindings.contains, h.right x (List.mem_singleton_self x)]
    simp only [Expr.check, value, bound, map_bind]
    refine bind_congr fun t => bind_congr fun _ => ?_
    -- the tables differ in the bindings that are given back, and nowhere else
    cases t.literal? with
    | none => rfl
    | some v =>
      simp only
      split
      · rfl
      · rfl
  | _ =>
    rw [check_eq_infer rfl, check_eq_infer rfl, infer_congr h.left]
    cases Expr.infer Δ _ with
    | error err => rfl
    | ok t => rfl

end Check

/-! ## 3. Sessions -/

namespace Session

/-- What a statement does to two sessions: nothing to either, or it binds the name that it defines,
to one value in both. -/
inductive SameChange (e : Expr) (s s' u u' : Session) : Prop where
  | none : s' = s → u' = u → SameChange e s s' u u'
  | binds {x : String} {v : Value} : e.defined? = some x → s.Binds x v s' → u.Binds x v u' →
      SameChange e s s' u u'

theorem check_fst (s : Session) (e : Expr) :
    (s.check e).1 = ((e.check s.shadowing s.bindings).map Prod.fst).mapError ([·]) := by
  rw [check]
  cases e.check s.shadowing s.bindings with
  | ok r => rfl
  | error err => rfl

variable {s u : Session} {e : Expr}

theorem check_fst_congr (policy : s.shadowing = u.shadowing)
    (agree : s.bindings.AgreeOn e.reads u.bindings) : (s.check e).1 = (u.check e).1 := by
  rw [check_fst, check_fst, policy, check_congr agree]

/-- **One answer, one change.** -/
theorem sameChange_check (h : (s.check e).1 = (u.check e).1) :
    SameChange e s (s.check e).2 u (u.check e).2 := by
  have hs := allOrNothing_check s e
  have hu := allOrNothing_check u e
  cases hcs : s.check e with
  | mk outcome s' =>
    cases hcu : u.check e with
    | mk outcome' u' =>
      rw [hcs, hcu] at h
      obtain rfl : outcome = outcome' := h
      rw [hcs] at hs
      rw [hcu] at hu
      cases outcome with
      | error errs => exact .none hs hu
      | ok t =>
        cases hs with
        | expression he =>
          cases hu with
          | expression _ => exact .none rfl rfl
          | definition _ => simp [Expr.isDefinition] at he
        | definition binds => exact .binds rfl binds (Accepts.binds hu)

/-- **Checking is local.**  Two sessions with one policy whose tables agree on the names that a
statement reads give the same answer, with the same tree or the same errors, and the same change is
made to both.  A pass that goes on after mistakes does no more than that.  In particular whatever
else a table binds is of no account. -/
theorem checking_is_local (policy : s.shadowing = u.shadowing)
    (agree : s.bindings.AgreeOn e.reads u.bindings) :
    (s.check e).1 = (u.check e).1 ∧ SameChange e s (s.check e).2 u (u.check e).2 ∧
      (s.bindings.Sound → u.bindings.Sound → (s.onePass [e]).1 = (u.onePass [e]).1 ∧
        SameChange e s (s.onePass [e]).2 u (u.onePass [e]).2) ∧
      ∀ y b, y ∉ e.reads →
        ({ s with bindings := s.bindings.insert y b }.check e).1 = (s.check e).1 := by
  have answer := check_fst_congr policy agree
  have change := sameChange_check answer
  refine ⟨answer, change, fun hs hu => ?_, fun y b hy => ?_⟩
  · rw [onePass_eq_checkProgram hs, onePass_eq_checkProgram hu, checkProgram_singleton,
      checkProgram_singleton, answer]
    exact ⟨rfl, change⟩
  · exact check_fst_congr rfl (.insert hy s.bindings b)

/-- `x + ((let n = 0) + fn (y) { n })` in a session that binds `x` only, and in one that binds `n`
and `y` too: the nested definition is reported in both, and in neither as one of a bound name.  Then
`let z = 0` binds `z` in both. -/
theorem checking_is_local_nested :
    let zero := Expr.literal ⟨12, 13⟩ (.number ⟨0⟩)
    let e := Expr.binary ⟨0, 28⟩ .add (.ident ⟨0, 1⟩ "x") (.binary ⟨4, 28⟩ .add
      (.define ⟨5, 14⟩ "n" none zero) (.lambda ⟨17, 28⟩ ["y"] (.ident ⟨25, 26⟩ "n")))
    let d := Expr.define ⟨0, 9⟩ "z" none zero
    let s := (new none .forbid).run [.define "x" (.number ⟨0⟩)]
    let u := (new (some "") .forbid).run
      [.define "n" (.bool true), .define "y" .unit, .define "x" (.number ⟨0⟩)]
    s.bindings.AgreeOn e.reads u.bindings ∧ (s.check e).1 = .error [⟨⟨5, 14⟩, .nested "n"⟩] ∧
      (u.check e).1 = .error [⟨⟨5, 14⟩, .nested "n"⟩] ∧ s.bindings.AgreeOn d.reads u.bindings ∧
      SameChange d s (s.check d).2 u (u.check d).2 ∧ (s.onePass [d]).1 = (u.onePass [d]).1 := by
  intro zero e d s u
  have agree : s.bindings.AgreeOn e.reads u.bindings := by
    intro x hx
    obtain rfl : x = "x" := List.mem_singleton.mp hx
    rfl
  have agree' : s.bindings.AgreeOn d.reads u.bindings := by
    intro x hx
    obtain rfl : x = "z" := List.mem_singleton.mp hx
    rfl
  have hs : s.Reachable := ⟨none, .forbid, _, rfl⟩
  have hu : u.Reachable := ⟨some "", .forbid, _, rfl⟩
  have policy : s.shadowing = u.shadowing := rfl
  have rejected : (s.check e).1 = .error [⟨⟨5, 14⟩, .nested "n"⟩] := rfl
  obtain ⟨answer, -⟩ := checking_is_local policy agree
  obtain ⟨-, change, pass, -⟩ := checking_is_local policy agree'
  exact ⟨agree, rejected, answer.symm.trans rejected, agree', change, (pass hs.sound hu.sound).1⟩

end Session

end ExprLang
