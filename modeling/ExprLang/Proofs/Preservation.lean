/-
# Compiled code computes the value of its source

The machine, started at the code of a tree, reaches the end of that code with the value of the tree
on top of the stack it started with (`Typed.WellTyped.steps`).  The statement is about a piece of
code anywhere in a program, on any stack and with any constants behind those that the piece uses, so
an operand, a branch and a statement are all instances of it.

Together with `performAll_of_checkAll` this is the correctness of the compiler: **the code leaves
what the source means, and never gets stuck on the way**.
-/
import ExprLang.Proofs.Machine

namespace ExprLang

open Machine

variable {A : Arithmetic} {c : Bytecode} {lines : LineMap} {pool pool' : List Value}
  {code : List Located} {o : Nat} {st : List Value}

/-! ## 1. Trees -/

/-- A leaf pushes its value. -/
theorem steps_of_leafScheme {v : Value} {line : UInt32}
    (h : leafScheme v.ty v line pool = .ok (code, pool')) (hp : pool' <+: c.constants.toList)
    (hc : c.HasAt o code) : Steps A c ⟨o, st⟩ ⟨o + byteCount code, v :: st⟩ := by
  obtain ⟨i, rfl, hi⟩ := leafScheme_ok h
  rw [byteCount_cons, byteCount_nil, Nat.add_zero]
  exact hc.steps (execute_pushes (hi.mono hp) o st)

/-- **The code of a tree pushes the value of the tree.** -/
theorem Typed.WellTyped.steps {t : Typed} (ht : t.WellTyped) :
    ∀ {pool pool' : List Value} {code : List Located} {o : Nat} {st : List Value} {v : Value},
      t.scheme lines pool = .ok (code, pool') → pool' <+: c.constants.toList → c.HasAt o code →
      t.eval A = some v → Steps A c ⟨o, st⟩ ⟨o + byteCount code, v :: st⟩ := by
  induction ht with
  | constant =>
    intro pool pool' code o st v h hp hc hv
    obtain rfl := Option.some.inj hv
    exact steps_of_leafScheme h hp hc
  | ident =>
    intro pool pool' code o st v h hp hc hv
    obtain rfl := Option.some.inj hv
    exact steps_of_leafScheme h hp hc
  | unary _ _ ih =>
    intro pool pool' code o st w h hp hc hw
    obtain ⟨operand, he, rfl⟩ := scheme_unary_ok h
    obtain ⟨v, hv, hop⟩ := Option.bind_eq_some_iff.mp hw
    refine (ih he hp hc.left hv).trans (hc.right.steps ?_)
    simp [execute, exec_unary hop, Nat.add_assoc]
  | binary _ _ _ ihl ihr =>
    intro pool pool' code o st u h hp hc hu
    obtain ⟨left, p₁, right, hl, hr, rfl⟩ := scheme_binary_ok h
    obtain ⟨v, hv, hu⟩ := Option.bind_eq_some_iff.mp hu
    obtain ⟨w, hw, hop⟩ := Option.bind_eq_some_iff.mp hu
    have hp₁ := (Typed.scheme_grows hr).trans hp
    refine (ihl hl hp₁ hc.left hv).trans ((ihr hr hp hc.right.left hw).trans ?_)
    refine hc.right.right.steps ?_
    simp [execute, exec_binary hop, Nat.add_assoc]
  | cond _ _ _ _ _ ihc iha ihb =>
    intro pool pool' code o st u h hp hc hu
    obtain ⟨test, p₁, yes, p₂, no, toElse, toEnd, hs, ha, hb, hElse, hEnd, rfl⟩ := scheme_cond_ok h
    obtain ⟨v, hv, hu⟩ := Option.bind_eq_some_iff.mp hu
    have hp₂ := (Typed.scheme_grows hb).trans hp
    have hp₁ := (Typed.scheme_grows ha).trans hp₂
    -- where the five pieces stand
    have hjif := hc.right
    have hyes := hjif.tail.left
    have hjmp := hjif.tail.right
    have hno := hjmp.tail
    simp only [size_withOperand] at hyes hjmp hno
    rw [add_byteCount_cond]
    refine (ihc hs hp₁ hc.left hv).trans ?_
    split at hu
    · -- fall into the first branch, then jump over the second
      refine (hjif.steps rfl).trans ((iha ha hp₂ hyes hu).trans (hjmp.steps ?_))
      rw [execute, hEnd]
    · -- jump over the first branch and over the jump behind it
      have target : o + byteCount test + 2 + toElse.toNat =
          o + byteCount test + 2 + byteCount yes + 2 := by omega
      refine (hjif.steps rfl).trans ?_
      rw [target]
      exact ihb hb hp hno hu
    · simp at hu

/-! ## 2. Programs -/

/-- The code of a statement leaves what the statement leaves. -/
theorem Typed.WellTypedStatement.steps {t : Typed} (ht : t.WellTypedStatement) {vs : List Value}
    (h : t.scheme lines pool = .ok (code, pool')) (hp : pool' <+: c.constants.toList)
    (hc : c.HasAt o code) (hvs : t.results A = some vs) :
    Steps A c ⟨o, st⟩ ⟨o + byteCount code, vs ++ st⟩ := by
  cases ht with
  | expression ht =>
    rw [Typed.results, ht.isDefinition, if_neg Bool.false_ne_true] at hvs
    obtain ⟨v, hv, rfl⟩ := Option.map_eq_some_iff.mp hvs
    exact ht.steps h hp hc hv
  | definition =>
    obtain rfl := Option.some.inj hvs
    obtain rfl := scheme_define_ok h
    exact .refl

/-- The code between two statements drops what the first one left. -/
theorem steps_discardCode {t : Typed} {vs : List Value} (hc : c.HasAt o (discardCode lines t))
    (hvs : t.results A = some vs) :
    Steps A c ⟨o, vs ++ st⟩ ⟨o + byteCount (discardCode lines t), st⟩ := by
  rw [discardCode] at hc ⊢
  rw [Typed.results] at hvs
  cases hd : t.isDefinition with
  | true =>
    rw [hd, if_pos rfl] at hvs
    obtain rfl := Option.some.inj hvs
    exact .refl
  | false =>
    rw [hd, if_neg Bool.false_ne_true] at hvs hc
    obtain ⟨v, -, rfl⟩ := Option.map_eq_some_iff.mp hvs
    exact hc.steps rfl

/-- **The code of a program leaves what its last statement leaves.** -/
theorem steps_of_schemeAll : ∀ {ts : List Typed} {pool pool' : List Value} {code : List Located}
    {o : Nat} {vs : List Value}, (∀ t ∈ ts, t.WellTypedStatement) →
    schemeAll lines ts pool = .ok (code, pool') → pool' <+: c.constants.toList → c.HasAt o code →
    resultsOf A ts = some vs → Steps A c ⟨o, st⟩ ⟨o + byteCount code, vs ++ st⟩
  | [], pool, pool', code, o, vs, _, h, _, _, hvs => by
    obtain rfl := Option.some.inj hvs
    obtain rfl := schemeAll_nil_ok h
    exact .refl
  | [t], pool, pool', code, o, vs, ht, h, hp, hc, hvs =>
    (ht t (List.mem_singleton_self t)).steps h hp hc hvs
  | t :: u :: ts, pool, pool', code, o, vs, ht, h, hp, hc, hvs => by
    obtain ⟨first, p₁, rest, hfirst, hrest, rfl⟩ := schemeAll_cons_ok h
    obtain ⟨first_wt, rest_wt⟩ := List.forall_mem_cons.mp ht
    obtain ⟨ws, hws, -⟩ := first_wt.exists_results A
    have hp₁ := (schemeAll_grows hrest).trans hp
    rw [resultsOf, List.getLast?_cons_cons] at hvs
    have later := steps_of_schemeAll rest_wt hrest hp hc.right.right hvs
    rw [byteCount_append, byteCount_append, ← Nat.add_assoc, ← Nat.add_assoc]
    exact (first_wt.steps hfirst hp₁ hc.left hws).trans
      ((steps_discardCode hc.right.left hws).trans later)

/-- Well-typed statements have results, and the machine finishes with them on their code. -/
theorem finishes_of_ofProgram {ts : List Typed} (ht : ∀ t ∈ ts, t.WellTypedStatement)
    (h : Bytecode.ofProgram lines ts = .ok c) {vs : List Value} (hvs : resultsOf A ts = some vs) :
    Finishes A c vs := by
  obtain ⟨code, hscheme, hbytes, -⟩ := scheme_of_ofProgram h
  have whole : c.HasAt 0 code := ⟨[], by rw [List.drop_zero, hbytes, List.append_nil]⟩
  have run : Steps A c ⟨0, []⟩ ⟨0 + byteCount code, vs ++ []⟩ :=
    steps_of_schemeAll ht hscheme (List.prefix_refl _) whole hvs
  rw [Nat.zero_add, List.append_nil, ← Bytecode.size_eq_byteCount hbytes] at run
  exact finishes_of_steps run

/-! ## 3. Sessions -/

/-- `Computes A ρ es ty c`: run from the empty stack, the code `c` computes what the source `es`
means in the environment `ρ`.  A program that ends in an expression gives one value, of the type
`ty`; one that ends in a definition, or is empty, gives none. -/
structure Computes (A : Arithmetic) (ρ : Environment) (es : List Expr) (ty : Ty) (c : Bytecode) :
    Prop where
  value : ∀ e, es.getLast? = some e → e.isDefinition = false →
    ∃ v, performAll A ρ es = some [v] ∧ v.ty = ty ∧ Finishes A c [v]
  nothing : (∀ e, es.getLast? = some e → e.isDefinition = true) →
    performAll A ρ es = some [] ∧ ty = .unit ∧ Finishes A c []

theorem computes_of_checkAll (A : Arithmetic) {shadowing : Shadowing} {Γ Γ' : Bindings}
    (hΓ : Γ.Sound) {es : List Expr} {ts : List Typed}
    (hcheck : checkAll shadowing Γ es = (.ok ts, Γ'))
    (hcode : Bytecode.ofProgram lines ts = .ok c) :
    Computes A Γ.values es (programTy ts) c := by
  have wellTyped := wellTyped_of_checkAll hΓ hcheck
  obtain ⟨vs, hvs, types⟩ := exists_resultsOf A wellTyped
  have meaning := (performAll_of_checkAll A hΓ hcheck).trans hvs
  have finishes := finishes_of_ofProgram wellTyped hcode hvs
  -- the last statement of the source is a definition if and only if the last tree is one
  have last : ts.getLast?.map Typed.isDefinition = es.getLast?.map Expr.isDefinition := by
    rw [← List.getLast?_map, ← List.getLast?_map, isDefinition_of_checkAll hcheck]
  constructor
  · intro e he hd
    rw [he, Option.map_some, hd] at last
    obtain ⟨t, ht, htd⟩ := Option.map_eq_some_iff.mp last
    rw [exitStack_of_expression ht htd] at types
    obtain ⟨v, rfl, hv⟩ := List.map_eq_singleton_iff.mp types
    exact ⟨v, meaning, hv, finishes⟩
  · intro hd
    have htd : ∀ t, ts.getLast? = some t → t.isDefinition = true := by
      intro t ht
      rw [ht, Option.map_some] at last
      obtain ⟨e, he, hed⟩ := Option.map_eq_some_iff.mp last.symm
      rw [← hed, hd e he]
    obtain ⟨hexit, hunit⟩ := exitStack_of_definition wellTyped htd
    rw [hexit] at types
    obtain rfl := List.map_eq_nil_iff.mp types
    exact ⟨meaning, hunit, finishes⟩

/-- **Compiled code computes the value of its source.**  In every session that calls can lead to,
whatever the operations on doubles are: the code of an accepted program, or of a single accepted
statement, runs to its end from the empty stack without getting stuck, and leaves exactly the value
that the source has under the bindings from before the call. -/
theorem Session.compiled_code_computes_source {s : Session} (hs : s.Reachable) (A : Arithmetic) :
    (∀ es ty c s', s.compileProgram es = (.ok (ty, c), s') →
      Computes A s.bindings.values es ty c) ∧
    ∀ e ty c s', s.compile e = (.ok (ty, c), s') → Computes A s.bindings.values [e] ty c := by
  have program : ∀ es ty c s', s.compileProgram es = (.ok (ty, c), s') →
      Computes A s.bindings.values es ty c := by
    intro es ty c s' h
    obtain ⟨ts, Γ, hcheck, hcode, rfl⟩ := compileProgram_ok h
    exact computes_of_checkAll A hs.sound hcheck hcode
  refine ⟨program, fun e ty c s' h => ?_⟩
  rw [compile_eq_compileProgram] at h
  exact program [e] ty c s' h

/-- With `x` bound to one, `x; let b = true; if b then -x else x` is the opposite of one, for
numbers that are compared word by word and of which only the sign is ever computed. -/
theorem Session.compiled_code_computes_source_branch :
    let A : Arithmetic := ⟨fun a => ⟨a.bits ^^^ 0x8000000000000000⟩, fun a _ => a, fun a _ => a,
      fun a _ => a, fun a _ => a, (· == ·), fun _ _ => false, (· == ·), fun _ _ => false, (· == ·)⟩
    let one := Value.number ⟨0x3FF0000000000000⟩
    let x := Expr.ident .zero "x"
    let es := [x, .define .zero "b" none (.literal .zero (.bool true)),
      .cond .zero (.ident .zero "b") (.unary .zero .neg x) x]
    ∃ c s', ((new none .forbid).run [.define "x" one]).compileProgram es = (.ok (.number, c), s') ∧
      Finishes A c [.number ⟨0xBFF0000000000000⟩] := by
  intro A one x es
  have reachable : ((new none .forbid).run [.define "x" one]).Reachable :=
    ⟨none, .forbid, [.define "x" one], rfl⟩
  obtain ⟨c, s', h⟩ : ∃ c s', ((new none .forbid).run [.define "x" one]).compileProgram es =
      (.ok (.number, c), s') := by
    dsimp only [es, x, one]
    exact ⟨_, _, rfl⟩
  obtain ⟨v, hv, -, hf⟩ :=
    ((compiled_code_computes_source reachable A).1 _ _ _ _ h).value _ rfl rfl
  have meaning : performAll A ((new none .forbid).run [.define "x" one]).bindings.values es =
      some [.number ⟨0xBFF0000000000000⟩] := rfl
  rw [meaning, Option.some.injEq, List.cons.injEq] at hv
  rw [← hv.1] at hf
  exact ⟨c, s', h, hf⟩

end ExprLang
