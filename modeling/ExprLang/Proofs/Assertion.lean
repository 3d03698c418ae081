/-
# Every binding has the type of its value

A table binds a name to any value at any type, and trusts who binds it.  Here the trust is turned
into an assertion: `Bindings.insertAsserting` stops where the type is not that of the value.  The
pass of `Recovery` binds at the **declared** type while the value is that of the literal, so the
assertion is not idle there.

It never stops anything (`analyzeAsserting_unstopped`), from whatever state the pass starts and
whatever the trees declare.  What ties the declared type to the literal is the flag of the pass:

* a literal is typed by its value, in every state (`ty_of_analyze_literal`);
* where the declared type is another one, the pass has reported it, and a pass that has reported
  something binds nothing (`getD_of_definitionRules`).

In the compiler the assertion stands in `insert` of `Globals`.
-/
import ExprLang.Proofs.Recovery

namespace ExprLang

/-! ## 1. The pass with the assertion -/

/-- Binds a name, and stops if the value does not have the type. -/
def Bindings.insertAsserting (Γ : Bindings) (x : String) (b : Binding) : Option Bindings :=
  if b.value.ty = b.ty then some (Γ.insert x b) else none

def Pass.bindAsserting (p : Pass) (x : String) (b : Binding) : Option Pass :=
  (p.bindings.insertAsserting x b).map fun Γ => { p with bindings := Γ }

/-- A pass that an assertion can stop. -/
abbrev Asserting := StateT Pass Option

/-- A part of the pass that asserts nothing. -/
def unasserted {α : Type} (m : StateM Pass α) : Asserting α := fun p => some (m.run p)

def insideAsserting {α : Type} (m : Asserting α) : Asserting α := do
  unasserted (modify Pass.enter)
  let a ← m
  unasserted (modify Pass.leave)
  return a

/-- `install`, with the assertion where it binds the name. -/
def installAsserting (s : Span) (x : String) (declared : Option Ty) (t : Typed) : Asserting Typed :=
  fun p =>
    match t.literal? with
    | some v =>
      if p.quiet then some (.define ⟨.error, s⟩ x t, p)
      else (p.bindAsserting x ⟨declared.getD t.ty, v⟩).map (.define ⟨.unit, s⟩ x t, ·)
    | none => some (.define ⟨.error, s⟩ x t, p)

/-- The rules of a definition, without the binding that follows them. -/
def definitionRules (shadowing : Shadowing) (top : Bool) (s : Span) (x : String)
    (declared : Option Ty) (t : Typed) : StateM Pass Unit := do
  demand (reportAt s (declarationRule x declared t.ty))
  reportIf (!top) ⟨s, .nested x⟩
  reportIf t.literal?.isNone ⟨t.span, .notLiteral x⟩
  reportIf (shadowing = .forbid ∧ (← get).bindings.contains x) ⟨s, .redefinition x⟩

/-- Types an expression, whatever is wrong with it, and asserts what it binds. -/
def Expr.analyzeAsserting (shadowing : Shadowing) : Expr → Asserting Typed
  | .literal s v => unasserted ((Expr.literal s v).analyze shadowing)
  | .ident s x => unasserted ((Expr.ident s x).analyze shadowing)
  | .unary s op e => insideAsserting do
    let t ← e.analyzeAsserting shadowing
    let ty ← unasserted (settle (reportAt s (op.apply t.ty)))
    return .unary ⟨ty, s⟩ op t
  | .binary s op l r => insideAsserting do
    let tl ← l.analyzeAsserting shadowing
    let tr ← r.analyzeAsserting shadowing
    let ty ← unasserted (settle (reportAt s (op.applyKnown tl.ty tr.ty)))
    return .binary ⟨ty, s⟩ op tl tr
  | .cond s c a b => insideAsserting do
    let tc ← c.analyzeAsserting shadowing
    let ta ← a.analyzeAsserting shadowing
    let tb ← b.analyzeAsserting shadowing
    let ty ← unasserted (settle (condRule s tc ta tb))
    return .cond ⟨ty, s⟩ tc ta tb
  | .lambda s params body => unasserted ((Expr.lambda s params body).analyze shadowing)
  | .define s x declared e => insideAsserting do
    let top := (← get).depth == 1
    let t ← e.analyzeAsserting shadowing
    unasserted (definitionRules shadowing top s x declared t)
    installAsserting s x declared t

def analyzeAllAsserting (shadowing : Shadowing) : List Expr → Asserting (List Typed)
  | [] => pure []
  | e :: es => do
    unasserted (modify Pass.synchronize)
    let t ← e.analyzeAsserting shadowing
    let ts ← analyzeAllAsserting shadowing es
    return t :: ts

/-! ## 2. Passes that are not stopped -/

/-- `Unstopped m' m`: no assertion stops `m'`, and it does what `m` does. -/
def Unstopped {α : Type} (m' : Asserting α) (m : StateM Pass α) : Prop :=
  ∀ p, m'.run p = some (m.run p)

section Unstopped

variable {α β : Type} {m' : Asserting α} {m : StateM Pass α} {f' : α → Asserting β}
  {f : α → StateM Pass β}

theorem Unstopped.unasserted (m : StateM Pass α) : Unstopped (unasserted m) m := fun _ => rfl

theorem Unstopped.pure (a : α) : Unstopped (pure a) (pure a) := fun _ => rfl

theorem Unstopped.get : Unstopped get get := fun _ => rfl

/-- What follows needs to go on only from what `m` gives and leaves. -/
theorem Unstopped.bind_run (h : Unstopped m' m)
    (hf : ∀ p, (f' (m.run p).1).run (m.run p).2 = some ((f (m.run p).1).run (m.run p).2)) :
    Unstopped (m' >>= f') (m >>= f) := by
  intro p
  have hrun : (m' >>= f').run p = (m'.run p).bind fun r => (f' r.1).run r.2 := rfl
  rw [hrun, h p, run_bind_eq]
  exact hf p

theorem Unstopped.bind (h : Unstopped m' m) (hf : ∀ a, Unstopped (f' a) (f a)) :
    Unstopped (m' >>= f') (m >>= f) := h.bind_run fun _ => hf _ _

theorem Unstopped.inside (h : Unstopped m' m) : Unstopped (insideAsserting m') (inside m) :=
  (Unstopped.unasserted _).bind fun _ => h.bind fun a =>
    (Unstopped.unasserted _).bind fun _ => .pure a

/-- The end of a node: its rule gives the type, and the node is built. -/
theorem Unstopped.node (x : Except TypeError Ty) (mk : Ty → Typed) :
    Unstopped (ExprLang.unasserted (settle x) >>= fun ty => Pure.pure (mk ty))
      (settle x >>= fun ty => Pure.pure (mk ty)) :=
  (Unstopped.unasserted _).bind fun _ => .pure _

end Unstopped

/-! ## 3. The assertion holds -/

theorem Bindings.insertAsserting_eq {b : Binding} (h : b.value.ty = b.ty) (Γ : Bindings)
    (x : String) :
    Γ.insertAsserting x b = some (Γ.insert x b) := if_pos h

theorem settleDefinition_eq (shadowing : Shadowing) (top : Bool) (s : Span) (x : String)
    (declared : Option Ty) (t : Typed) :
    settleDefinition shadowing top s x declared t =
      definitionRules shadowing top s x declared t >>= fun _ => install s x declared t := rfl

/-- Whatever a pass makes of a name is no literal. -/
theorem literal_analyze_ident (shadowing : Shadowing) (s : Span) (x : String) (p : Pass) :
    (((Expr.ident s x).analyze shadowing).run p).1.literal? = none := by
  rw [Expr.analyze, run_inside, run_bind_eq]
  split
  · rfl
  · rfl

/-- Whatever a pass makes of a definition is no literal. -/
theorem literal_settleDefinition (shadowing : Shadowing) (top : Bool) (s : Span) (x : String)
    (declared : Option Ty) (t : Typed) (p : Pass) :
    ((settleDefinition shadowing top s x declared t).run p).1.literal? = none := by
  have installed : ∀ q : Pass, ((install s x declared t).run q).1.literal? = none := by
    intro q
    simp only [install, run_modifyGet]
    split
    · split
      · rfl
      · rfl
    · rfl
  exact installed _

/-- **A literal is typed by its value**, whatever the state of the pass. -/
theorem ty_of_analyze_literal {shadowing : Shadowing} {e : Expr} {p : Pass} {v : Value}
    (h : ((e.analyze shadowing).run p).1.literal? = some v) :
    ((e.analyze shadowing).run p).1.ty = v.ty := by
  have none_ne : none ≠ some v := (Option.some_ne_none v).symm
  cases e with
  | literal s w =>
    have hw : w = v := Option.some.inj h
    rw [← hw]
    rfl
  | ident s x =>
    exact absurd ((literal_analyze_ident ..).symm.trans h) none_ne
  | unary s op e => exact absurd h none_ne
  | binary s op l r => exact absurd h none_ne
  | cond s c a b => exact absurd h none_ne
  | lambda s params body => exact absurd h none_ne
  | define s x declared e =>
    exact absurd ((literal_settleDefinition ..).symm.trans h) none_ne

/-- **A pass that has found nothing wrong with a definition binds it at the type of its value**:
another declared type would have been reported. -/
theorem getD_of_definitionRules {shadowing : Shadowing} {top : Bool} {s : Span} {x : String}
    {declared : Option Ty} {t : Typed} {p : Pass}
    (h : ((definitionRules shadowing top s x declared t).run p).2.quiet = false) :
    declared.getD t.ty = t.ty := by
  cases hd : declarationRule x declared t.ty with
  | ok u => rcases declarationRule_eq_ok.mp hd with rfl | rfl <;> rfl
  | error c =>
    have later : Silent (reportIf (!top) ⟨s, .nested x⟩ >>= fun _ =>
        reportIf t.literal?.isNone ⟨t.span, .notLiteral x⟩ >>= fun _ => get >>= fun q =>
          reportIf (shadowing = .forbid ∧ q.bindings.contains x) ⟨s, .redefinition x⟩) :=
      (Silent.reportIf _ _).bind fun _ => (Silent.reportIf _ _).bind fun _ =>
        Silent.get.bind fun _ => .reportIf _ _
    -- the first rule reports, so the pass is quiet from there on
    have quiet : ((report ⟨s, c⟩).run p).2.quiet = true := by
      rw [run_report]
      cases hp : p.quiet with
      | true => simpa using hp
      | false => rfl
    rw [definitionRules, hd, run_bind_eq] at h
    have reported : (demand (reportAt s (.error c))).run p = (report ⟨s, c⟩).run p := rfl
    rw [reported, later _ quiet, quiet] at h
    cases h

theorem installAsserting_unstopped {s : Span} {x : String} {declared : Option Ty} {t : Typed}
    {p : Pass} (literal : ∀ v, t.literal? = some v → t.ty = v.ty)
    (ty : p.quiet = false → declared.getD t.ty = t.ty) :
    (installAsserting s x declared t).run p = some ((install s x declared t).run p) := by
  have hrun : (installAsserting s x declared t).run p = installAsserting s x declared t p := rfl
  rw [hrun, installAsserting, install, run_modifyGet]
  cases hv : t.literal? with
  | none => rfl
  | some v =>
    cases hp : p.quiet with
    | true => rfl
    | false =>
      have holds : v.ty = declared.getD t.ty := by rw [ty hp, literal v hv]
      have bound : p.bindAsserting x ⟨declared.getD t.ty, v⟩ =
          some (p.bind x ⟨declared.getD t.ty, v⟩) := by
        rw [Pass.bindAsserting, Bindings.insertAsserting_eq holds]
        rfl
      simp only [Bool.false_eq_true, if_false, bound]
      rfl

/-- **No assertion stops the pass**, from whatever state and for whatever tree. -/
theorem analyzeAsserting_unstopped (shadowing : Shadowing) (e : Expr) :
    Unstopped (e.analyzeAsserting shadowing) (e.analyze shadowing) := by
  induction e with
  | literal s v => exact .unasserted _
  | ident s x => exact .unasserted _
  | unary s op e ih => exact (ih.bind fun t => .node _ _).inside
  | binary s op l r ihl ihr => exact (ihl.bind fun tl => ihr.bind fun tr => .node _ _).inside
  | cond s c a b ihc iha ihb =>
    exact (ihc.bind fun tc => iha.bind fun ta => ihb.bind fun tb => .node _ _).inside
  | lambda s params body => exact .unasserted _
  | define s x declared e ih =>
    refine (Unstopped.get.bind fun q => ih.bind_run fun p => ?_).inside
    rw [settleDefinition_eq]
    refine (Unstopped.unasserted _).bind_run (fun p' => ?_) _
    exact installAsserting_unstopped (fun v hv => ty_of_analyze_literal hv) getD_of_definitionRules

theorem analyzeAllAsserting_unstopped (shadowing : Shadowing) :
    ∀ es, Unstopped (analyzeAllAsserting shadowing es) (analyzeAll shadowing es)
  | [] => .pure []
  | e :: es => (Unstopped.unasserted _).bind fun _ =>
      (analyzeAsserting_unstopped shadowing e).bind fun t =>
        (analyzeAllAsserting_unstopped shadowing es).bind fun ts => .pure (t :: ts)

/-! ## 4. Runs of a session -/

theorem Bindings.mem_insertEntry {x : String} {b : Binding} {entry : String × Binding}
    {l : List (String × Binding)} (h : entry ∈ insertEntry x b l) : entry = (x, b) ∨ entry ∈ l := by
  induction l with
  | nil => exact Or.inl (List.mem_singleton.mp h)
  | cons e l ih =>
    rw [insertEntry] at h
    split at h
    · rcases List.mem_cons.mp h with h | h
      · exact Or.inl h
      · exact Or.inr (List.mem_cons_of_mem e h)
    · split at h
      · exact List.mem_cons.mp h
      · rcases List.mem_cons.mp h with rfl | h
        · exact Or.inr List.mem_cons_self
        · exact (ih h).imp_right (List.mem_cons_of_mem e)

namespace Session

/-- Checks a list of statements in one pass that asserts. -/
def onePassAsserting (s : Session) (es : List Expr) : Option (Checked × Session) :=
  ((analyzeAllAsserting s.shadowing es).run (.start s.bindings)).map fun (ts, p) =>
    (p.finish ts, { s with bindings := p.bindings })

/-- The session after a call, with the assertion wherever a name is bound.  Code is generated after
the check, from what the check answered, and binds nothing. -/
def afterAsserting (s : Session) : Call → Option Session
  | .define x v => (s.bindings.insertAsserting x ⟨v.ty, v⟩).map fun Γ => { s with bindings := Γ }
  | .check e | .compile e => (s.onePassAsserting [e]).map Prod.snd
  | .checkProgram es | .compileProgram es => (s.onePassAsserting es).map Prod.snd

/-- The session after a sequence of calls, unless an assertion stops it. -/
def runAsserting (s : Session) (calls : List Call) : Option Session := calls.foldlM afterAsserting s

theorem onePassAsserting_eq (s : Session) (es : List Expr) :
    s.onePassAsserting es = some (s.onePass es) := by
  rw [onePassAsserting, analyzeAllAsserting_unstopped]
  rfl

/-- **No call is stopped**, and it leaves the session that it leaves without the assertion. -/
theorem afterAsserting_eq {s : Session} (hs : s.bindings.Sound) (call : Call) :
    s.afterAsserting call = some (s.after call) := by
  have program : ∀ es, (s.onePassAsserting es).map Prod.snd = some (s.checkProgram es).2 := by
    intro es
    rw [onePassAsserting_eq, onePass_eq_checkProgram hs]
    rfl
  cases call with
  | define x v =>
    rw [afterAsserting, Bindings.insertAsserting_eq rfl]
    rfl
  | check e =>
    rw [afterAsserting, program, checkProgram_singleton]
    rfl
  | checkProgram es => exact program es
  | compile e =>
    rw [afterAsserting, program, after, compile_eq_compileProgram, compileProgram_snd]
  | compileProgram es => rw [afterAsserting, program, after, compileProgram_snd]

theorem runAsserting_eq : ∀ (calls : List Call) {s : Session}, s.bindings.Sound →
    s.runAsserting calls = some (s.run calls)
  | [], _, _ => rfl
  | call :: calls, s, hs => by
    have after_sound : (s.after call).bindings.Sound :=
      run_invariant (fun _ x v hΓ => hΓ.insert x v) [call] s hs
    rw [runAsserting, List.foldlM_cons, afterAsserting_eq hs]
    exact runAsserting_eq calls after_sound

/-- **Every binding has the type of its value, at every point of every run.**  No name is bound
otherwise, not even inside a call, since no assertion ever stops a run; and after each call all
entries of the table have the type of their values, which is never the type of errors. -/
theorem bindings_have_types_of_values (source : Option String) (shadowing : Shadowing)
    (calls : List Call) :
    (new source shadowing).runAsserting calls = some ((new source shadowing).run calls) ∧
      ∀ before, before <+: calls → ∀ entry ∈ ((new source shadowing).run before).bindings.entries,
        entry.2.ty = entry.2.value.ty ∧ entry.2.ty ≠ .error := by
  refine ⟨runAsserting_eq calls Bindings.sound_empty, fun before _ => ?_⟩
  refine run_invariant (P := fun Γ => ∀ entry ∈ Γ.entries,
    entry.2.ty = entry.2.value.ty ∧ entry.2.ty ≠ .error) ?_ before (new source shadowing) ?_
  · intro Γ x v hΓ entry hentry
    rcases Bindings.mem_insertEntry hentry with rfl | hentry
    · exact ⟨rfl, v.ty_ne_error⟩
    · exact hΓ entry hentry
  · intro entry hentry
    exact absurd hentry List.not_mem_nil

/-- `let y: Error = 1`, `1 + let y: Error = u` and `let y: Bool = true` after `x` was bound to a
string: the first is at odds with its declaration, the second reports `u` and then meets two further
mistakes, the third is bound. -/
theorem bindings_have_types_of_values_declared :
    let one := Expr.literal .zero (.number ⟨1⟩)
    let y (ty : Ty) (e : Expr) := Expr.define .zero "y" (some ty) e
    let nested := Expr.binary .zero .add one (y .error (.ident .zero "u"))
    let calls : List Call := [.define "x" (.str ""), .checkProgram [y .error one, nested],
      .compile (y .bool (.literal .zero (.bool true)))]
    let s := (new none .forbid).run calls
    (new none .forbid).runAsserting calls = some s ∧
      ("y", ⟨.bool, .bool true⟩) ∈ s.bindings.entries ∧ Ty.bool ≠ .error := by
  intro one y nested calls s
  obtain ⟨unstopped, entries⟩ := bindings_have_types_of_values none .forbid calls
  have bound : ("y", ⟨.bool, .bool true⟩) ∈ s.bindings.entries := by decide
  exact ⟨unstopped, bound, (entries calls (List.prefix_refl calls) _ bound).2⟩

end Session

end ExprLang
