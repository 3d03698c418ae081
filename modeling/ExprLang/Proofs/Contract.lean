/-
# The contract between checking and generating

The generator trusts its input: it stops with a `Misuse` at a node of the error type, at a name
without a value, at a condition that is no `Bool`, at branches of two types, where its own count of
the stack would drop below zero, and where a jump is to land whose operand is not in the code.  A
well-typed tree gives it no reason to.  All but the last two of these are ruled out by an
annotation.  The last two are ruled out by an invariant (`Typed.WellTyped.emit_settles`).  A node
pops what the code of its children pushed, and **the code of a well-typed expression leaves exactly
one value more**.  A jump lands after the code that it skips, and **code never gets shorter**.

What is left are the two limits of the instruction format.

In the compiler these are the assertions of `transform`, `push_value`, `pop_stack`, `write_jump` and
`jump_patch`.
-/
import ExprLang.Proofs.WellTyped

namespace ExprLang

/-! ## 1. Outcomes that keep the contract -/

/-- The two limits of the instruction format. -/
def CodeError.IsLimit : CodeError → Prop
  | .tooManyConstants => True
  | .jumpTooFar _ => True
  | .unsupported _ => False

/-- `Settles n d o`: the generator stops with at least `n` bytes of code and `d` values on its
stack, or at a limit of the format. -/
def Settles (n d : Nat) : Except CodeFailure Emitter → Prop
  | .ok g => n ≤ g.code.size ∧ g.depth = d
  | .error (.error e) => e.IsLimit
  | .error (.misuse _) => False

namespace Settles

variable {n n' d d' : Nat} {o : Except CodeFailure Emitter}

theorem mono (hn : n ≤ n') (h : Settles n' d o) : Settles n d o := by
  cases o with
  | ok g => exact ⟨Nat.le_trans hn h.1, h.2⟩
  | error e =>
    cases e with
    | error e => exact h
    | misuse m => exact h.elim

theorem bind {f : Emitter → Except CodeFailure Emitter} (h : Settles n d o)
    (hf : ∀ g, n ≤ g.code.size → g.depth = d → Settles n' d' (f g)) : Settles n' d' (o >>= f) := by
  cases o with
  | ok g => exact hf g h.1 h.2
  | error e =>
    cases e with
    | error e => exact h
    | misuse m => exact h.elim

theorem map {f : Emitter → Emitter} (h : Settles n d o)
    (hf : ∀ g, n ≤ g.code.size → g.depth = d → n' ≤ (f g).code.size ∧ (f g).depth = d') :
    Settles n' d' (o.map f) :=
  h.bind (f := fun g => .ok (f g)) hf

/-- A condition that holds is no obstacle. -/
theorem require {holds : Bool} {m : Misuse} {f : Unit → Except CodeFailure Emitter}
    (hb : holds = true) (h : Settles n d (f ())) : Settles n d (require holds m >>= f) := by
  rw [ExprLang.require, if_pos hb]
  exact h

end Settles

namespace Emitter

variable (g : Emitter)

/-- A value that was pushed can be popped. -/
theorem pop_settles {d : Nat} (h : g.depth = d + 1) : Settles g.code.size d g.pop := by
  rw [pop, if_neg (by omega)]
  exact ⟨Nat.le_refl _, by simp [h]⟩

/-- An instruction is written behind the code that is there. -/
theorem write_settles {n d : Nat} (hn : n ≤ g.code.size) (hd : g.depth = d) (op : SimpleOp)
    (line : UInt32) : Settles n d (.ok (g.write op line)) := by
  refine ⟨?_, hd⟩
  rw [size_write]
  exact Nat.le_add_right_of_le hn

/-- A jump is written with its operand. -/
theorem writeJump_settles {op : OperandOp} (h : op.isJump = true) (line : UInt32) :
    Settles (g.code.size + 2) g.depth (g.writeJump op line) := by
  rw [g.writeJump_of_isJump h]
  exact ⟨Nat.le_of_eq (g.size_writeWith op 0 line).symm, rfl⟩

/-- **A jump whose operand was written can be landed**, unless it goes too far. -/
theorem land_settles {index : Nat} (h : index < g.code.size) :
    Settles g.code.size g.depth (g.land index) := by
  rcases g.land_cases index with ⟨outside, -⟩ | ⟨-, ⟨-, hland⟩ | ⟨-, code, hp, hland⟩⟩
  · omega
  · rw [hland]
    trivial
  · rw [hland]
    exact ⟨Nat.le_of_eq (Bytecode.size_of_patch? hp).symm, rfl⟩

theorem writeConstant_settles (v : Value) (line : UInt32) :
    Settles g.code.size g.depth (g.writeConstant v line) := by
  rw [writeConstant]
  split
  · next index code hadd =>
    have same : code.size = g.code.size := by rw [← g.code.size_addConstant v, hadd]
    refine ⟨?_, rfl⟩
    rw [size_writeWith]
    exact same ▸ Nat.le_add_right _ 2
  · trivial

/-- A leaf of a type that has values leaves one value. -/
theorem pushValue_settles {ty : Ty} (hty : ty ≠ .error) (v : Value) (line : UInt32) :
    Settles g.code.size (g.depth + 1) (g.pushValue ty v line) := by
  have constant : Settles g.code.size (g.depth + 1) ((g.writeConstant v line).map push) :=
    (g.writeConstant_settles v line).map fun g' hsize hdepth => ⟨hsize, by simp [push, hdepth]⟩
  have simple (op : SimpleOp) : Settles g.code.size (g.depth + 1) (.ok (g.write op line).push) :=
    ⟨(g.write_settles (Nat.le_refl _) rfl op line).1, rfl⟩
  cases ty with
  | number => exact constant
  | string => exact constant
  | bool => exact simple _
  | unit => exact simple .pushUnit
  | error => exact absurd rfl hty

end Emitter

/-! ## 2. Trees -/

/-- **The code of a well-typed expression leaves exactly one value more**, and all code that was
there; or the generator stops at a limit. -/
theorem Typed.WellTyped.emit_settles (lines : LineMap) {t : Typed} (ht : t.WellTyped) :
    ∀ g : Emitter, Settles g.code.size (g.depth + 1) (t.emit lines g) := by
  have typed : ∀ {ty : Ty}, ty ≠ .error → (!ty.isError) = true := by
    intro ty h
    simp [Ty.isError, h]
  induction ht with
  | constant =>
    intro g
    exact g.pushValue_settles (Value.ty_ne_error _) _ _
  | ident =>
    intro g
    exact .require (typed (Value.ty_ne_error _)) (g.pushValue_settles (Value.ty_ne_error _) _ _)
  | unary he hty ih =>
    intro g
    refine .require (typed (WellTyped.unary (s := .zero) he hty).ty_ne_error) ?_
    exact (ih g).bind fun g₁ s₁ h₁ => g₁.write_settles s₁ h₁ _ _
  | binary hl hr hty ihl ihr =>
    intro g
    refine .require (typed (apply_ne_error hty)) ?_
    refine (ihl g).bind fun g₁ s₁ h₁ => (ihr g₁).bind fun g₂ s₂ h₂ => ?_
    -- the two operands count two values, so one of them can go
    refine (g₂.pop_settles (h₂.trans (by rw [h₁]))).bind fun g₃ s₃ h₃ => ?_
    exact g₃.write_settles (by omega) h₃ _ _
  | cond hc ha hb hbool hty ihc iha ihb =>
    intro g
    refine .require (typed ha.ty_ne_error)
      (.require (by simp [hbool]) (.require (by simp [hty]) ?_))
    refine (ihc g).bind fun g₁ s₁ h₁ => (g₁.pop_settles h₁).bind fun g₂ s₂ h₂ => ?_
    refine (g₂.writeJump_settles rfl _).bind fun g₃ s₃ h₃ => (iha g₃).bind fun g₄ s₄ h₄ => ?_
    refine (g₄.writeJump_settles rfl _).bind fun g₅ s₅ h₅ => ?_
    -- code never gets shorter, so the operand of a jump is there when the jump lands
    have toElse : g₂.nextOperand < g₅.code.size := by rw [Emitter.nextOperand]; omega
    refine (g₅.land_settles toElse).bind fun g₆ s₆ h₆ => ?_
    -- the else branch starts from the depth before the then branch
    refine (ihb { g₆ with depth := g₂.depth }).bind
      fun g₇ (s₇ : g₆.code.size ≤ g₇.code.size) h₇ => ?_
    have toEnd : g₄.nextOperand < g₇.code.size := by rw [Emitter.nextOperand]; omega
    rw [← h₂, ← h₇]
    exact (g₇.land_settles toEnd).mono (by omega)

/-- A statement leaves its value, if it has one. -/
theorem Typed.WellTypedStatement.emit_settles (lines : LineMap) {t : Typed}
    (ht : t.WellTypedStatement) (g : Emitter) :
    Settles g.code.size (g.depth + t.leaves.length) (t.emit lines g) := by
  cases ht with
  | expression h =>
    rw [h.leaves]
    exact h.emit_settles lines g
  | definition => exact .require rfl ⟨Nat.le_refl _, rfl⟩

/-- Between two statements the stack is as it was before the first. -/
theorem Emitter.discard_settles (g : Emitter) (lines : LineMap) (t : Typed) {d : Nat}
    (h : g.depth = d + t.leaves.length) : Settles g.code.size d (g.discard lines t) := by
  rw [Typed.leaves] at h
  rw [discard]
  split
  · next hd => exact ⟨Nat.le_refl _, by simpa [hd] using h⟩
  · next hd =>
    have hdepth : g.depth = d + 1 := by simpa [hd] using h
    exact (g.pop_settles hdepth).map fun g' s' h' => g'.write_settles s' h' .pop _

/-! ## 3. Lists of statements -/

/-- **Statements leave what the last one leaves**, or the generator stops at a limit. -/
theorem emitAll_settles (lines : LineMap) :
    ∀ (ts : List Typed), (∀ t ∈ ts, t.WellTypedStatement) → ∀ g : Emitter,
      Settles g.code.size (g.depth + (exitStack ts).length) (emitAll lines ts g)
  | [], _, _ => ⟨Nat.le_refl _, rfl⟩
  | [t], h, g => (h t (by simp)).emit_settles lines g
  | t :: u :: ts, h, g => by
    rw [exitStack_cons_cons]
    refine ((h t (by simp)).emit_settles lines g).bind fun g₁ s₁ h₁ => ?_
    refine (g₁.discard_settles lines t h₁).bind fun g₂ s₂ h₂ => ?_
    have rest := emitAll_settles lines (u :: ts) (fun v hv => h v (List.mem_cons_of_mem t hv)) g₂
    rw [← h₂]
    exact rest.mono (by omega)

/-- The failures that the contract allows. -/
def Session.FailsAtLimitsOnly (r : Except CodeFailure (Ty × Bytecode)) : Prop :=
  ∀ f, r = .error f → f = .error .tooManyConstants ∨ ∃ distance, f = .error (.jumpTooFar distance)

theorem Session.generateProgram_failsAtLimitsOnly (s : Session) {ts : List Typed}
    (h : ∀ t ∈ ts, t.WellTypedStatement) : FailsAtLimitsOnly (s.generateProgram ts) := by
  intro f hf
  have settles := emitAll_settles s.lines ts h .start
  simp only [generateProgram, Bytecode.ofProgram] at hf
  cases ho : emitAll s.lines ts .start with
  | ok g => simp [ho, Except.map] at hf
  | error e =>
    simp only [ho, Except.map, Except.error.injEq] at hf
    rw [ho, hf] at settles
    cases f with
    | misuse m => exact settles.elim
    | error e =>
      cases e with
      | tooManyConstants => exact Or.inl rfl
      | jumpTooFar d => exact Or.inr ⟨d, rfl⟩
      | unsupported c => exact settles.elim

/-! ## 4. Sessions -/

/-- **The contract holds in every run.**  Whatever calls came before a successful check and whatever
calls come after it, generating code for what the check answered fails at the limits of the format
and nowhere else. -/
theorem Session.contract_between_passes (source : Option String) (shadowing : Shadowing)
    (before later : List Call) :
    (∀ e t s', ((new source shadowing).run before).check e = (.ok t, s') →
      FailsAtLimitsOnly ((s'.run later).generate t) ∧
        FailsAtLimitsOnly ((s'.run later).generateProgram [t])) ∧
    ∀ es ts s', ((new source shadowing).run before).checkProgram es = (.ok ts, s') →
      FailsAtLimitsOnly ((s'.run later).generateProgram ts) ∧
        ∀ t ∈ ts, FailsAtLimitsOnly ((s'.run later).generate t) := by
  have reachable : ((new source shadowing).run before).Reachable :=
    ⟨source, shadowing, before, rfl⟩
  -- a tree stays well typed whatever becomes of the session, so only the check matters
  have each : ∀ ts, ((new source shadowing).run before).Delivers ts → ∀ s : Session, ∀ t ∈ ts,
      FailsAtLimitsOnly (s.generate t) := by
    intro ts h s t ht
    rw [generate_eq_generateProgram]
    refine s.generateProgram_failsAtLimitsOnly fun u hu => ?_
    rw [List.mem_singleton.mp hu]
    exact h.wellTyped reachable t ht
  constructor
  · intro e t s' h
    have delivers : ((new source shadowing).run before).Delivers [t] := Or.inr ⟨e, t, s', h, rfl⟩
    have single := each [t] delivers (s'.run later) t (List.mem_singleton_self t)
    exact ⟨single, generate_eq_generateProgram _ t ▸ single⟩
  · intro es ts s' h
    have delivers : ((new source shadowing).run before).Delivers ts := Or.inl ⟨es, s', h⟩
    exact ⟨generateProgram_failsAtLimitsOnly _ (delivers.wellTyped reachable),
      each ts delivers (s'.run later)⟩

/-- `let x = 0; if x < x then -x else x` is checked; after `x` was bound to a string, its code is
still generated without a misuse. -/
theorem Session.contract_between_passes_rebound :
    let zero := Value.number ⟨0⟩
    let x := Expr.ident .zero "x"
    let es := [Expr.define .zero "x" none (.literal .zero zero),
      .cond .zero (.binary .zero .lt x x) (.unary .zero .neg x) x]
    ∃ ts s', ((new none .forbid).run []).checkProgram es = (.ok ts, s') ∧
      FailsAtLimitsOnly ((s'.run [.define "x" (.str "x")]).generateProgram ts) := by
  intro zero x es
  have h : ((new none .forbid).run []).checkProgram es =
      (.ok _, { new none .forbid with bindings := Bindings.empty.insert "x" ⟨.number, zero⟩ }) :=
    rfl
  exact ⟨_, _, h, ((contract_between_passes none .forbid [] [.define "x" (.str "x")]).2 _ _ _ h).1⟩

end ExprLang
