/-
# Places in the source do not matter

Spans are copied from tree to tree and into errors, and the lines of a source are written next to
every byte of the code.  Nothing is decided by them.

To say so, all that mentions a place is erased: `bare` sets every span to the zero span and every
line to zero, in trees, errors, code and sessions.  **Erasing commutes with every operation**:
whatever is done with a bare input is the bare form of what is done with the input (`infer_bare` for
the checker, `Typed.emit_bare` for the generator, `Session.serve_bare` for a run).  So two runs that
differ in places only have one bare run in common.
-/
import ExprLang.Proofs.Recovery

namespace ExprLang

/-! ## 1. Erasing places -/

def Expr.bare : Expr → Expr
  | .literal _ v => .literal .zero v
  | .ident _ x => .ident .zero x
  | .unary _ op e => .unary .zero op e.bare
  | .binary _ op l r => .binary .zero op l.bare r.bare
  | .cond _ c a b => .cond .zero c.bare a.bare b.bare
  | .lambda _ params body => .lambda .zero params body.bare
  | .define _ x declared e => .define .zero x declared e.bare

def NodeInfo.bare (i : NodeInfo) : NodeInfo := ⟨i.ty, .zero⟩

def Typed.bare : Typed → Typed
  | .constant i v => .constant i.bare v
  | .ident i x v => .ident i.bare x v
  | .unary i op e => .unary i.bare op e.bare
  | .binary i op l r => .binary i.bare op l.bare r.bare
  | .cond i c a b => .cond i.bare c.bare a.bare b.bare
  | .lambda i => .lambda i.bare
  | .define i x e => .define i.bare x e.bare

def TypeError.bare (e : TypeError) : TypeError := ⟨.zero, e.cause⟩

def Diagnostic.bare (d : Diagnostic) : Diagnostic := { d with span := .zero }

def Bytecode.bare (c : Bytecode) : Bytecode := { c with lines := c.lines.map fun _ => 0 }

def Emitter.bare (g : Emitter) : Emitter := { g with code := g.code.bare }

@[simp]
theorem Typed.ty_bare (t : Typed) : t.bare.ty = t.ty := by cases t <;> rfl

@[simp]
theorem Typed.span_bare (t : Typed) : t.bare.span = .zero := by cases t <;> rfl

@[simp]
theorem Typed.literal?_bare (t : Typed) : t.bare.literal? = t.literal? := by cases t <;> rfl

@[simp]
theorem Typed.isDefinition_bare (t : Typed) : t.bare.isDefinition = t.isDefinition := by
  cases t <;> rfl

/-! ## 2. Outcomes -/

section Outcome

variable {ε ε' α α' β β' : Type}

/-- Changes what is given, and the error where nothing is. -/
def both (onError : ε → ε') (onOk : α → α') : Except ε α → Except ε' α'
  | .ok a => .ok (onOk a)
  | .error e => .error (onError e)

/-- Two sequences correspond when their steps do. -/
theorem both_bind {g : ε → ε'} {f : α → α'} {f' : β → β'} {x : Except ε α} {y : Except ε' α'}
    {k : α → Except ε β} {k' : α' → Except ε' β'} (hx : y = both g f x)
    (hk : ∀ a, k' (f a) = both g f' (k a)) : (y >>= k') = both g f' (x >>= k) := by
  subst hx
  cases x with
  | ok a => exact hk a
  | error e => rfl

end Outcome

theorem reportAt_bare {α : Type} (s : Span) (x : Except TypeError.Cause α) :
    reportAt .zero x = both TypeError.bare id (reportAt s x) := by
  cases x with
  | ok a => rfl
  | error c => rfl

/-! ## 3. The checker -/

/-- The end of a node: its rule gives the type, and the node is built. -/
theorem node_bare {x y : Except TypeError Ty} {mk mk' : Ty → Typed}
    (hx : y = both TypeError.bare id x) (hmk : ∀ ty, mk' ty = (mk ty).bare) :
    (y >>= fun ty => pure (mk' ty)) =
      both TypeError.bare Typed.bare (x >>= fun ty => pure (mk ty)) :=
  both_bind hx fun ty => congrArg Except.ok (hmk ty)

theorem condRule_bare (s : Span) (c a b : Typed) :
    condRule .zero c.bare a.bare b.bare = both TypeError.bare id (condRule s c a b) := by
  simp only [condRule, Typed.ty_bare, Typed.span_bare]
  split
  · rfl
  · split
    · rfl
    · rfl

/-- **The checker types a bare expression as it types the expression.** -/
theorem infer_bare (Γ : Bindings) (e : Expr) :
    e.bare.infer Γ = both TypeError.bare Typed.bare (e.infer Γ) := by
  induction e with
  | literal s v => rfl
  | ident s x =>
    rw [Expr.bare, Expr.infer, Expr.infer]
    cases Γ.get? x with
    | some b => rfl
    | none => rfl
  | unary s op e ih =>
    refine both_bind ih fun t => ?_
    rw [Typed.ty_bare]
    exact node_bare (reportAt_bare s _) fun _ => rfl
  | binary s op l r ihl ihr =>
    refine both_bind ihl fun tl => both_bind ihr fun tr => ?_
    rw [Typed.ty_bare, Typed.ty_bare]
    exact node_bare (reportAt_bare s _) fun _ => rfl
  | cond s c a b ihc iha ihb =>
    rw [Expr.bare, infer_cond_eq, infer_cond_eq]
    refine both_bind ihc fun tc => both_bind iha fun ta => both_bind ihb fun tb => ?_
    exact node_bare (condRule_bare s tc ta tb) fun _ => rfl
  | lambda s params body => rfl
  | define s x declared e ih =>
    refine both_bind ih fun t => ?_
    rw [Typed.ty_bare]
    exact both_bind (reportAt_bare s _) fun _ => rfl

theorem isDefinition_bare (e : Expr) : e.bare.isDefinition = e.isDefinition := by
  cases e <;> rfl

theorem check_bare (shadowing : Shadowing) (Γ : Bindings) (e : Expr) :
    e.bare.check shadowing Γ =
      both TypeError.bare (Prod.map Typed.bare id) (e.check shadowing Γ) := by
  cases he : e.isDefinition with
  | false =>
    rw [check_eq_infer ((isDefinition_bare e).trans he), check_eq_infer he, infer_bare]
    cases e.infer Γ with
    | ok t => rfl
    | error err => rfl
  | true =>
    cases e with
    | define s x declared e =>
      refine both_bind (infer_bare Γ e) fun t => ?_
      rw [Typed.ty_bare, Typed.literal?_bare, Typed.span_bare]
      refine both_bind (reportAt_bare s _) fun _ => ?_
      cases t.literal? with
      | none => rfl
      | some v =>
        simp only
        split
        · rfl
        · rfl
    | _ => simp [Expr.isDefinition] at he

/-- What a check gives, without places. -/
def Checked.bare (outcome : Checked) : Checked :=
  both (List.map TypeError.bare) (List.map Typed.bare) outcome

theorem Checked.cons_bare (first : Except TypeError Typed) (rest : Checked) :
    Checked.cons (both TypeError.bare Typed.bare first) rest.bare =
      (Checked.cons first rest).bare := by
  cases first <;> cases rest <;> rfl

theorem checkAll_bare (shadowing : Shadowing) (Γ : Bindings) (es : List Expr) :
    checkAll shadowing Γ (es.map Expr.bare) =
      ((checkAll shadowing Γ es).1.bare, (checkAll shadowing Γ es).2) := by
  induction es generalizing Γ with
  | nil => rfl
  | cons e es ih =>
    rw [List.map_cons, checkAll, checkAll, check_bare]
    cases e.check shadowing Γ with
    | error err =>
      simp only [both, ih]
      exact Prod.ext (Checked.cons_bare (.error err) _) rfl
    | ok r =>
      simp only [both, Prod.map, id, ih]
      exact Prod.ext (Checked.cons_bare (.ok r.1) _) rfl

/-! ## 4. The generator -/

/-- Without a source everything is on line zero. -/
theorem LineMap.lineOf_unknown (offset : Nat) : LineMap.unknown.lineOf offset = 0 := rfl

/-- A condition for going on stops both or none. -/
theorem require_bare {holds : Bool} {m : Misuse} {k k' : Unit → Except CodeFailure Emitter}
    (hk : k' () = both id Emitter.bare (k ())) :
    (require holds m >>= k') = both id Emitter.bare (require holds m >>= k) := by
  cases holds with
  | true => exact hk
  | false => rfl

namespace Emitter

variable (g : Emitter)

theorem start_bare : start.bare = start := by
  simp [start, bare, Bytecode.bare, Bytecode.empty]

theorem pop_bare : g.bare.pop = both id bare g.pop := by
  have depth : g.bare.depth = g.depth := rfl
  rw [pop, pop, depth]
  split
  · rfl
  · rfl

theorem write_bare (op : SimpleOp) (line : UInt32) :
    g.bare.write op 0 = (g.write op line).bare := by
  simp [write, bare, Bytecode.bare, Bytecode.writeOp, Bytecode.write]

theorem writeWith_bare (op : OperandOp) (x : UInt8) (line : UInt32) :
    g.bare.writeWith op x 0 = (g.writeWith op x line).bare := by
  simp [writeWith, bare, Bytecode.bare, Bytecode.writeOp, Bytecode.write]

theorem writeJump_bare (op : OperandOp) (line : UInt32) :
    g.bare.writeJump op 0 = both id bare (g.writeJump op line) := by
  rw [writeJump, writeJump, g.writeWith_bare op 0 line]
  exact require_bare rfl

theorem patch?_bare (index : Nat) (b : UInt8) :
    g.bare.code.patch? index b = (g.code.patch? index b).map Bytecode.bare := by
  have code : g.bare.code.code = g.code.code := rfl
  simp only [Bytecode.patch?, code]
  split
  · rfl
  · rfl

theorem land_bare (index : Nat) : g.bare.land index = both id bare (g.land index) := by
  have size : g.bare.code.size = g.code.size := rfl
  rw [land, land, size]
  refine require_bare ?_
  dsimp only
  rw [g.patch?_bare]
  split
  · cases g.code.patch? index (g.code.size - index - 1).toUInt8 with
    | none => rfl
    | some code => rfl
  · rfl

/-- The pool is asked the same and gets the same. -/
theorem writeConstant_bare (v : Value) (line : UInt32) :
    g.bare.writeConstant v 0 = both id bare (g.writeConstant v line) := by
  have pooled : g.bare.code.addConstant v =
      ((g.code.addConstant v).1, (g.code.addConstant v).2.bare) := by
    have constants : g.bare.code.constants = g.code.constants := rfl
    rw [Bytecode.addConstant, Bytecode.addConstant, constants]
    split
    · rfl
    · split
      · rfl
      · rfl
  rw [writeConstant, writeConstant, pooled]
  obtain ⟨index, code⟩ := g.code.addConstant v
  cases index with
  | none => rfl
  | some index => exact congrArg Except.ok (writeWith_bare ⟨code, g.depth⟩ .pushConstant index line)

theorem pushValue_bare (ty : Ty) (v : Value) (line : UInt32) :
    g.bare.pushValue ty v 0 = both id bare (g.pushValue ty v line) := by
  have constant : (g.bare.writeConstant v 0).map push =
      both id bare ((g.writeConstant v line).map push) := by
    rw [g.writeConstant_bare v line]
    cases g.writeConstant v line with
    | ok g' => rfl
    | error f => rfl
  cases ty with
  | number => exact constant
  | string => exact constant
  | bool => exact congrArg (fun g => Except.ok g.push) (g.write_bare _ line)
  | unit => exact congrArg (fun g => Except.ok g.push) (g.write_bare _ line)
  | error => rfl

end Emitter

/-- **The code of a bare tree is the bare code of the tree**, from whatever buffer. -/
theorem Typed.emit_bare (lines : LineMap) (t : Typed) :
    ∀ g : Emitter, t.bare.emit .unknown g.bare = both id Emitter.bare (t.emit lines g) := by
  induction t with
  | constant i v =>
    intro g
    exact g.pushValue_bare i.ty v _
  | ident i x v =>
    intro g
    refine require_bare ?_
    cases v with
    | none => rfl
    | some v => exact g.pushValue_bare i.ty v _
  | unary i op e ih =>
    intro g
    refine require_bare (both_bind (ih g) fun g₁ => ?_)
    exact congrArg Except.ok (g₁.write_bare _ _)
  | binary i op l r ihl ihr =>
    intro g
    refine require_bare (both_bind (ihl g) fun g₁ => both_bind (ihr g₁) fun g₂ => ?_)
    refine both_bind g₂.pop_bare fun g₃ => ?_
    exact congrArg Except.ok (g₃.write_bare _ _)
  | cond i c a b ihc iha ihb =>
    intro g
    simp only [Typed.bare, Typed.emit, Typed.ty_bare, LineMap.lineOf_unknown]
    refine require_bare (require_bare (require_bare ?_))
    refine both_bind (ihc g) fun g₁ => both_bind g₁.pop_bare fun g₂ => ?_
    refine both_bind (g₂.writeJump_bare .jumpIfFalse _) fun g₃ => both_bind (iha g₃) fun g₄ => ?_
    refine both_bind (g₄.writeJump_bare .jump _) fun g₅ => both_bind (g₅.land_bare _) fun g₆ => ?_
    exact both_bind (ihb { g₆ with depth := g₂.depth }) fun g₇ => g₇.land_bare _
  | lambda i =>
    intro g
    rfl
  | define i x e _ =>
    intro g
    exact require_bare rfl

theorem Emitter.discard_bare (g : Emitter) (lines : LineMap) (t : Typed) :
    g.bare.discard .unknown t.bare = both id Emitter.bare (g.discard lines t) := by
  rw [discard, discard, Typed.isDefinition_bare, g.pop_bare]
  split
  · rfl
  · cases g.pop with
    | error f => rfl
    | ok g' => exact congrArg Except.ok (g'.write_bare .pop _)

theorem emitAll_bare (lines : LineMap) : ∀ (ts : List Typed) (g : Emitter),
    emitAll .unknown (ts.map Typed.bare) g.bare = both id Emitter.bare (emitAll lines ts g)
  | [], _ => rfl
  | [t], g => t.emit_bare lines g
  | t :: u :: ts, g =>
    both_bind (t.emit_bare lines g) fun g₁ => both_bind (g₁.discard_bare lines t) fun g₂ =>
      emitAll_bare lines (u :: ts) g₂

/-- **The code of bare statements is the bare code of the statements.** -/
theorem ofProgram_bare (lines : LineMap) (ts : List Typed) :
    Bytecode.ofProgram .unknown (ts.map Typed.bare) =
      both id Bytecode.bare (Bytecode.ofProgram lines ts) := by
  have emitted := emitAll_bare lines ts .start
  rw [Emitter.start_bare] at emitted
  rw [Bytecode.ofProgram, Bytecode.ofProgram, emitted]
  cases emitAll lines ts .start with
  | ok g => rfl
  | error f => rfl

theorem programTy_bare (ts : List Typed) : programTy (ts.map Typed.bare) = programTy ts := by
  rw [programTy, programTy, List.getLast?_map]
  cases ts.getLast? with
  | none => rfl
  | some t => exact t.ty_bare

/-! ## 5. Sessions -/

namespace Session

/-- The session without its source. -/
def bare (s : Session) : Session := { s with lines := .unknown }

def Failure.bare : Failure → Failure
  | .error (.rejected ds) => .error (.rejected (ds.map Diagnostic.bare))
  | .error (.code e) => .error (.code e)
  | .misuse m => .misuse m

/-- A type with code, the code without its lines. -/
def bareCode (r : Ty × Bytecode) : Ty × Bytecode := (r.1, r.2.bare)

variable (s : Session)

theorem shadowing_bare : s.bare.shadowing = s.shadowing := rfl

theorem bindings_bare : s.bare.bindings = s.bindings := rfl

theorem check_bare (e : Expr) :
    s.bare.check e.bare =
      (both (List.map TypeError.bare) Typed.bare (s.check e).1, (s.check e).2.bare) := by
  rw [check, check, shadowing_bare, bindings_bare, ExprLang.check_bare]
  cases e.check s.shadowing s.bindings with
  | ok r => rfl
  | error err => rfl

theorem checkProgram_bare (es : List Expr) :
    s.bare.checkProgram (es.map Expr.bare) =
      ((s.checkProgram es).1.bare, (s.checkProgram es).2.bare) := by
  rw [checkProgram, checkProgram, shadowing_bare, bindings_bare, checkAll_bare]
  rfl

theorem generateProgram_bare (ts : List Typed) :
    s.bare.generateProgram (ts.map Typed.bare) = both id bareCode (s.generateProgram ts) := by
  have unsourced : s.bare.lines = .unknown := rfl
  rw [generateProgram, generateProgram, unsourced, ofProgram_bare s.lines, programTy_bare]
  cases Bytecode.ofProgram s.lines ts with
  | ok c => rfl
  | error f => rfl

theorem Failure.ofTypeErrors_bare (errs : List TypeError) :
    Failure.ofTypeErrors (errs.map TypeError.bare) = (Failure.ofTypeErrors errs).bare := by
  have each : TypeError.toDiagnostic ∘ TypeError.bare = Diagnostic.bare ∘ TypeError.toDiagnostic :=
    rfl
  rw [ofTypeErrors, ofTypeErrors, Failure.bare, List.map_map, List.map_map, each]

theorem compileProgram_bare (es : List Expr) :
    s.bare.compileProgram (es.map Expr.bare) =
      (both Failure.bare bareCode (s.compileProgram es).1, (s.compileProgram es).2.bare) := by
  rw [compileProgram, compileProgram, checkProgram_bare]
  cases s.checkProgram es with
  | mk outcome s' =>
    cases outcome with
    | error errs => exact Prod.ext (congrArg Except.error (Failure.ofTypeErrors_bare errs)) rfl
    | ok ts =>
      refine Prod.ext ?_ rfl
      show (s'.bare.generateProgram (ts.map Typed.bare)).mapError .ofCode =
        both Failure.bare bareCode ((s'.generateProgram ts).mapError .ofCode)
      rw [generateProgram_bare]
      cases s'.generateProgram ts with
      | ok r => rfl
      | error f => cases f <;> rfl

end Session

/-! ## 6. Requests and answers -/

namespace Session

/-- Everything that a session can be asked to do. -/
inductive Request where
  | define (x : String) (v : Value)
  | check (e : Expr)
  | checkProgram (es : List Expr)
  | compile (e : Expr)
  | compileProgram (es : List Expr)
  | generate (t : Typed)
  | generateProgram (ts : List Typed)

inductive Answer where
  | done
  | checked (outcome : Except (List TypeError) Typed)
  | programChecked (outcome : Checked)
  | compiled (outcome : Except Failure (Ty × Bytecode))
  | generated (outcome : Except CodeFailure (Ty × Bytecode))

/-- The answer to a request, and the session after it. -/
def respond (s : Session) : Request → Answer × Session
  | .define x v => (.done, s.define x v)
  | .check e => (.checked (s.check e).1, (s.check e).2)
  | .checkProgram es => (.programChecked (s.checkProgram es).1, (s.checkProgram es).2)
  | .compile e => (.compiled (s.compile e).1, (s.compile e).2)
  | .compileProgram es => (.compiled (s.compileProgram es).1, (s.compileProgram es).2)
  | .generate t => (.generated (s.generate t), s)
  | .generateProgram ts => (.generated (s.generateProgram ts), s)

/-- The session after a sequence of requests. -/
def serve (s : Session) (requests : List Request) : Session :=
  requests.foldl (fun s r => (s.respond r).2) s

def Request.bare : Request → Request
  | .define x v => .define x v
  | .check e => .check e.bare
  | .checkProgram es => .checkProgram (es.map Expr.bare)
  | .compile e => .compile e.bare
  | .compileProgram es => .compileProgram (es.map Expr.bare)
  | .generate t => .generate t.bare
  | .generateProgram ts => .generateProgram (ts.map Typed.bare)

def Answer.bare : Answer → Answer
  | .done => .done
  | .checked outcome => .checked (both (List.map TypeError.bare) Typed.bare outcome)
  | .programChecked outcome => .programChecked outcome.bare
  | .compiled outcome => .compiled (both Failure.bare bareCode outcome)
  | .generated outcome => .generated (both id bareCode outcome)

/-- **A bare request has the bare answer**, and leaves the bare session. -/
theorem respond_bare (s : Session) (r : Request) :
    s.bare.respond r.bare = ((s.respond r).1.bare, (s.respond r).2.bare) := by
  have compiled : ∀ es, (Answer.compiled (s.bare.compileProgram (es.map Expr.bare)).1,
      (s.bare.compileProgram (es.map Expr.bare)).2) =
        ((Answer.compiled (s.compileProgram es).1).bare, (s.compileProgram es).2.bare) := by
    intro es
    rw [compileProgram_bare]
    rfl
  cases r with
  | define x v => rfl
  | check e =>
    rw [Request.bare, respond, check_bare]
    rfl
  | checkProgram es =>
    rw [Request.bare, respond, checkProgram_bare]
    rfl
  | compile e =>
    rw [Request.bare, respond, respond, compile_eq_compileProgram, compile_eq_compileProgram]
    exact compiled [e]
  | compileProgram es => exact compiled es
  | generate t => exact Prod.ext (congrArg Answer.generated (s.generateProgram_bare [t])) rfl
  | generateProgram ts => exact Prod.ext (congrArg Answer.generated (s.generateProgram_bare ts)) rfl

/-- **A bare run leads to the bare session.** -/
theorem serve_bare (s : Session) (requests : List Request) :
    s.bare.serve (requests.map Request.bare) = (s.serve requests).bare := by
  induction requests generalizing s with
  | nil => rfl
  | cons r requests ih =>
    have step : s.bare.serve ((r :: requests).map Request.bare) =
        (s.bare.respond r.bare).2.serve (requests.map Request.bare) := rfl
    rw [step, respond_bare]
    exact ih (s.respond r).2

/-! ## 7. Two runs -/

/-- Both succeed or both fail, and what they give is related. -/
def Alike {ε α : Type} (onError : ε → ε → Prop) (onOk : α → α → Prop) :
    Except ε α → Except ε α → Prop
  | .ok a, .ok b => onOk a b
  | .error e, .error f => onError e f
  | _, _ => False

/-- The same code of the same type, whatever its lines. -/
structure SameCode (a b : Ty × Bytecode) : Prop where
  ty : a.1 = b.1
  code : a.2.code = b.2.code
  constants : a.2.constants = b.2.constants
  maxStack : a.2.maxStack = b.2.maxStack

/-- The same errors in the same order, wherever they point to. -/
def SameCauses (errs errs' : List TypeError) : Prop :=
  errs.map TypeError.cause = errs'.map TypeError.cause

/-- Two answers to the same request that differ in places only. -/
def Answer.Agree : Answer → Answer → Prop
  | .done, .done => True
  | .checked a, .checked b => Alike SameCauses (fun t u => t.bare = u.bare) a b
  | .programChecked a, .programChecked b =>
    Alike SameCauses (fun ts us => ts.map Typed.bare = us.map Typed.bare) a b
  | .compiled a, .compiled b => Alike (fun f f' => f.bare = f'.bare) SameCode a b
  | .generated a, .generated b => Alike (fun f f' => f = f') SameCode a b
  | _, _ => False

theorem alike_of_both {ε ε' α α' : Type} {P : ε → ε → Prop} {Q : α → α → Prop} {g : ε → ε'}
    {f : α → α'} (hP : ∀ e e', g e = g e' → P e e') (hQ : ∀ a a', f a = f a' → Q a a')
    {x y : Except ε α} (h : both g f x = both g f y) : Alike P Q x y := by
  cases x with
  | ok a =>
    cases y with
    | ok b => exact hQ a b (Except.ok.inj h)
    | error e => cases h
  | error e =>
    cases y with
    | ok b => cases h
    | error e' => exact hP e e' (Except.error.inj h)

theorem sameCode_of_bareCode (a b : Ty × Bytecode) (h : bareCode a = bareCode b) :
    SameCode a b where
  ty := congrArg (fun r => r.1) h
  code := congrArg (fun r => r.2.code) h
  constants := congrArg (fun r => r.2.constants) h
  maxStack := congrArg (fun r => r.2.maxStack) h

theorem sameCauses_of_bare (errs errs' : List TypeError)
    (h : errs.map TypeError.bare = errs'.map TypeError.bare) : SameCauses errs errs' := by
  have causes := congrArg (List.map TypeError.cause) h
  rw [List.map_map, List.map_map] at causes
  exact causes

/-- Answers with one bare answer in common agree. -/
theorem Answer.agree_of_bare {a b : Answer} (h : a.bare = b.bare) : a.Agree b := by
  cases a with
  | done =>
    cases b with
    | done => exact True.intro
    | _ => cases h
  | checked x =>
    cases b with
    | checked y => exact alike_of_both sameCauses_of_bare (fun _ _ => id) (Answer.checked.inj h)
    | _ => cases h
  | programChecked x =>
    cases b with
    | programChecked y =>
      exact alike_of_both sameCauses_of_bare (fun _ _ => id) (Answer.programChecked.inj h)
    | _ => cases h
  | compiled x =>
    cases b with
    | compiled y => exact alike_of_both (fun _ _ => id) sameCode_of_bareCode (Answer.compiled.inj h)
    | _ => cases h
  | generated x =>
    cases b with
    | generated y =>
      exact alike_of_both (fun _ _ => id) sameCode_of_bareCode (Answer.generated.inj h)
    | _ => cases h

/-- Sessions that differ in their source only have one bare session in common. -/
theorem bare_eq_bare {s s' : Session} (hshadowing : s.shadowing = s'.shadowing)
    (hbindings : s.bindings = s'.bindings) : s.bare = s'.bare := by
  rw [bare, bare, hshadowing, hbindings]

/-- **Places never influence what is computed.**  Two sessions that differ in their source only get
the same requests, up to spans.  However many there were before, the next one is answered alike by
both, and afterwards they hold the same bindings. -/
theorem places_never_matter {s s' : Session} (hshadowing : s.shadowing = s'.shadowing)
    (hbindings : s.bindings = s'.bindings) {before before' : List Request}
    (hbefore : before.map Request.bare = before'.map Request.bare) {r r' : Request}
    (hr : r.bare = r'.bare) :
    ((s.serve before).respond r).1.Agree ((s'.serve before').respond r').1 ∧
      ((s.serve before).respond r).2.bindings = ((s'.serve before').respond r').2.bindings := by
  have sessions : (s.serve before).bare = (s'.serve before').bare := by
    rw [← serve_bare, ← serve_bare, bare_eq_bare hshadowing hbindings, hbefore]
  have responses := respond_bare (s.serve before) r
  rw [sessions, hr, respond_bare] at responses
  obtain ⟨answers, afterwards⟩ := Prod.mk.inj responses
  exact ⟨Answer.agree_of_bare answers.symm, congrArg (fun s => s.bindings) afterwards.symm⟩

/-- `let x = 0` and then `x + 1`, on the second line of a source and without one: the lines of the
code differ, and nothing else does. -/
theorem places_never_matter_second_line :
    let literal (place : Span) (bits : UInt64) := Expr.literal place (.number ⟨bits⟩)
    let before (place : Span) := [Request.check (.define place "x" none (literal place 0))]
    let r (place : Span) :=
      Request.compile (.binary place .add (.ident place "x") (literal place 0x3ff0000000000000))
    let s := new (some "let x = 0\nx + 1") .forbid
    let s' := new none .forbid
    let answer := (s.serve (before ⟨0, 9⟩)).respond (r ⟨10, 15⟩)
    let answer' := (s'.serve (before .zero)).respond (r .zero)
    ∃ c c', answer.1 = .compiled (.ok (.number, c)) ∧ answer'.1 = .compiled (.ok (.number, c')) ∧
      c.lines.toList = List.replicate 5 2 ∧ c'.lines.toList = List.replicate 5 0 ∧
      SameCode (.number, c) (.number, c') ∧ answer.2.bindings = answer'.2.bindings := by
  intro literal before r s s' answer answer'
  have policy : s.shadowing = s'.shadowing := rfl
  have unbound : s.bindings = s'.bindings := rfl
  have sameBefore : (before ⟨0, 9⟩).map Request.bare = (before .zero).map Request.bare := rfl
  have sameRequest : (r ⟨10, 15⟩).bare = (r .zero).bare := rfl
  obtain ⟨agree, table⟩ := places_never_matter policy unbound sameBefore sameRequest
  exact ⟨_, _, rfl, rfl, rfl, rfl, agree, table⟩

end Session

end ExprLang
