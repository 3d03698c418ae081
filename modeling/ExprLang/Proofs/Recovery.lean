/-
# A pass that goes on after a mistake

The checker stops at the first mistake of a statement.  A pass over the whole tree can also go on:
it gives the type of errors to what has no type, reports nothing more until the next statement, and
looks at every node.  Such a pass carries a state through the tree and from statement to statement:
the bindings, which it changes **while it is still inside the statement**, what it has reported, two
flags, and how deep it is, by which it tells a statement from a part of one.

`Session.onePass` is that pass, and `Session.onePass_eq_checkProgram` says that it answers what the
checker answers and leaves the same bindings.  Two facts carry the proof.

* **A quiet pass does nothing** (`analyze_silent`): once a mistake is reported, no rule that fails
  above it or beside it is reported, and no name is bound.
* **A loud pass agrees with the checker** (`analyze_recovers`): before the first mistake all types
  are true types, so each rule is asked the same question; the first one that fails is reported.

The types are true under a sound table only.  A table could hold a name at the type of errors, and
then the pass would not compare it with itself, while the checker would.

In the compiler the state is its `Analyzer`, `Expr.analyze` is `analyze` with all the functions that
it calls, `report` is `error`, and `analyzeAll` is the loop of `analyze_program`.
-/
import ExprLang.Proofs.WellTyped

namespace ExprLang

/-! ## 1. The state of the pass -/

/-- What the pass carries along. -/
structure Pass where
  bindings : Bindings
  /-- All that was reported, in order. -/
  errors : List TypeError
  /-- Something was reported, in whatever statement. -/
  failed : Bool
  /-- Something was reported in this statement. -/
  quiet : Bool
  /-- The number of nodes around the place of the pass. -/
  depth : Nat
  deriving DecidableEq, Repr

namespace Pass

def start (Γ : Bindings) : Pass := ⟨Γ, [], false, false, 0⟩

/-- The pass after its first report in a statement. -/
def fail (p : Pass) (err : TypeError) : Pass :=
  { p with errors := p.errors ++ [err], failed := true, quiet := true }

def enter (p : Pass) : Pass := { p with depth := p.depth + 1 }

def leave (p : Pass) : Pass := { p with depth := p.depth - 1 }

/-- Makes the pass ready for a new statement. -/
def synchronize (p : Pass) : Pass := { p with quiet := false, depth := 0 }

def bind (p : Pass) (x : String) (b : Binding) : Pass :=
  { p with bindings := p.bindings.insert x b }

/-- The outcome of the pass over a list of statements. -/
def finish (p : Pass) (ts : List Typed) : Checked := if p.failed then .error p.errors else .ok ts

end Pass

/-! ## 2. The pass -/

/-- Reports an error, unless the statement has had one. -/
def report (err : TypeError) : StateM Pass Unit :=
  modify fun p => if p.quiet then p else p.fail err

def reportIf (c : Bool) (err : TypeError) : StateM Pass Unit := if c then report err else pure ()

/-- The type that a rule gives, or a report and the type of errors. -/
def settle : Except TypeError Ty → StateM Pass Ty
  | .ok ty => pure ty
  | .error err => do
    report err
    return .error

/-- Reports a rule that fails. -/
def demand : Except TypeError Unit → StateM Pass Unit
  | .ok () => pure ()
  | .error err => report err

/-- Does something one level deeper. -/
def inside {α : Type} (m : StateM Pass α) : StateM Pass α := do
  modify Pass.enter
  let a ← m
  modify Pass.leave
  return a

/-- Two operands with the type of errors are not equal: each has its own mistake. -/
def BinaryOp.applyKnown (op : BinaryOp) (left right : Ty) : Except TypeError.Cause Ty :=
  if op.isEquality ∧ left = .error then .error (.notComparable op left right)
  else op.apply left right

/-- The rule of an `if`: first the condition, then the branches. -/
def condRule (s : Span) (c a b : Typed) : Except TypeError Ty :=
  if c.ty ≠ .bool then .error ⟨c.span, .condition c.ty⟩
  else if a.ty ≠ b.ty then .error ⟨s, .branches a.ty b.ty⟩
  else .ok a.ty

/-- Binds the name of a definition if its value is a literal and nothing was reported. -/
def install (s : Span) (x : String) (declared : Option Ty) (t : Typed) : StateM Pass Typed :=
  modifyGet fun p =>
    match t.literal? with
    | some v =>
      if p.quiet then (.define ⟨.error, s⟩ x t, p)
      else (.define ⟨.unit, s⟩ x t, p.bind x ⟨declared.getD t.ty, v⟩)
    | none => (.define ⟨.error, s⟩ x t, p)

/-- The rules about what a definition binds, and the binding. -/
def settleBinding (shadowing : Shadowing) (s : Span) (x : String) (declared : Option Ty)
    (t : Typed) :
    StateM Pass Typed := do
  reportIf t.literal?.isNone ⟨t.span, .notLiteral x⟩
  reportIf (shadowing = .forbid ∧ (← get).bindings.contains x) ⟨s, .redefinition x⟩
  install s x declared t

/-- The rules of a definition, all of them, given its typed value. -/
def settleDefinition (shadowing : Shadowing) (top : Bool) (s : Span) (x : String)
    (declared : Option Ty) (t : Typed) : StateM Pass Typed := do
  demand (reportAt s (declarationRule x declared t.ty))
  reportIf (!top) ⟨s, .nested x⟩
  settleBinding shadowing s x declared t

/-- Types an expression, whatever is wrong with it. -/
def Expr.analyze (shadowing : Shadowing) : Expr → StateM Pass Typed
  | .literal s v => inside (pure (.constant ⟨v.ty, s⟩ v))
  | .ident s x => inside do
    match (← get).bindings.get? x with
    | some b => return .ident ⟨b.ty, s⟩ x (some b.value)
    | none =>
      report ⟨s, .undefined x⟩
      return .ident ⟨.error, s⟩ x none
  | .unary s op e => inside do
    let t ← e.analyze shadowing
    let ty ← settle (reportAt s (op.apply t.ty))
    return .unary ⟨ty, s⟩ op t
  | .binary s op l r => inside do
    let tl ← l.analyze shadowing
    let tr ← r.analyze shadowing
    let ty ← settle (reportAt s (op.applyKnown tl.ty tr.ty))
    return .binary ⟨ty, s⟩ op tl tr
  | .cond s c a b => inside do
    let tc ← c.analyze shadowing
    let ta ← a.analyze shadowing
    let tb ← b.analyze shadowing
    let ty ← settle (condRule s tc ta tb)
    return .cond ⟨ty, s⟩ tc ta tb
  | .lambda s _ _ => inside do
    report ⟨s, .unsupported "Functions"⟩
    return .lambda ⟨.error, s⟩
  | .define s x declared e => inside do
    let top := (← get).depth == 1
    let t ← e.analyze shadowing
    settleDefinition shadowing top s x declared t

/-- Types a list of statements. -/
def analyzeAll (shadowing : Shadowing) : List Expr → StateM Pass (List Typed)
  | [] => pure []
  | e :: es => do
    modify Pass.synchronize
    let t ← e.analyze shadowing
    let ts ← analyzeAll shadowing es
    return t :: ts

/-- Checks a list of statements in one pass. -/
def Session.onePass (s : Session) (es : List Expr) : Checked × Session :=
  let (ts, p) := (analyzeAll s.shadowing es).run (.start s.bindings)
  (p.finish ts, { s with bindings := p.bindings })

section Run

variable {α β : Type}

theorem run_bind_eq (m : StateM Pass α) (f : α → StateM Pass β) (p : Pass) :
    (m >>= f).run p = (f (m.run p).1).run (m.run p).2 := rfl

theorem run_modifyGet (f : Pass → α × Pass) (p : Pass) :
    (modifyGet f : StateM Pass α).run p = f p := rfl

theorem run_inside (m : StateM Pass α) (p : Pass) :
    (inside m).run p = ((m.run p.enter).1, (m.run p.enter).2.leave) := rfl

theorem Pass.bindings_enter (p : Pass) : p.enter.bindings = p.bindings := rfl

theorem Pass.leave_enter (p : Pass) : p.enter.leave = p := rfl

theorem Pass.leave_fail_enter (p : Pass) (err : TypeError) :
    (p.enter.fail err).leave = p.fail err := rfl

theorem run_report (err : TypeError) (p : Pass) :
    (report err).run p = ((), if p.quiet then p else p.fail err) := rfl

end Run

/-! ## 3. A quiet pass does nothing -/

/-- `Silent m`: in a statement with a report, `m` changes nothing. -/
def Silent {α : Type} (m : StateM Pass α) : Prop :=
  ∀ p : Pass, p.quiet = true → (m.run p).2 = p

section Quiet

variable {α β : Type}

theorem Silent.pure (a : α) : Silent (pure a) := fun _ _ => rfl

theorem Silent.get : Silent get := fun _ _ => rfl

theorem Silent.bind {m : StateM Pass α} {f : α → StateM Pass β} (hm : Silent m)
    (hf : ∀ a, Silent (f a)) : Silent (m >>= f) := by
  intro p hp
  have hrun := hm p hp
  rw [run_bind_eq, hrun]
  exact hf _ p hp

theorem Silent.inside {m : StateM Pass α} (hm : Silent m) : Silent (inside m) := by
  intro p hp
  rw [run_inside, hm p.enter hp]
  exact p.leave_enter

theorem Silent.report (err : TypeError) : Silent (report err) := by
  intro p hp
  rw [run_report, if_pos hp]

theorem Silent.reportIf (c : Bool) (err : TypeError) : Silent (reportIf c err) := by
  cases c with
  | true => exact .report err
  | false => exact .pure ()

theorem Silent.settle (x : Except TypeError Ty) : Silent (settle x) := by
  cases x with
  | ok ty => exact .pure ty
  | error err => exact (Silent.report err).bind fun _ => .pure _

/-- The end of a node: its rule gives the type, and the node is built. -/
theorem Silent.node (x : Except TypeError Ty) (mk : Ty → Typed) :
    Silent (ExprLang.settle x >>= fun ty => Pure.pure (mk ty)) :=
  (Silent.settle x).bind fun _ => .pure _

theorem Silent.demand (x : Except TypeError Unit) : Silent (demand x) := by
  cases x with
  | ok u => exact .pure ()
  | error err => exact .report err

end Quiet

theorem Silent.install (s : Span) (x : String) (declared : Option Ty) (t : Typed) :
    Silent (install s x declared t) := by
  intro p hp
  simp only [ExprLang.install, run_modifyGet]
  cases t.literal? with
  | none => rfl
  | some v => simp only [hp, if_true]

theorem Silent.settleBinding (shadowing : Shadowing) (s : Span) (x : String)
    (declared : Option Ty) (t : Typed) : Silent (settleBinding shadowing s x declared t) :=
  (Silent.reportIf _ _).bind fun _ => Silent.get.bind fun _ =>
    (Silent.reportIf _ _).bind fun _ => .install s x declared t

theorem Silent.settleDefinition (shadowing : Shadowing) (top : Bool) (s : Span) (x : String)
    (declared : Option Ty) (t : Typed) :
    Silent (settleDefinition shadowing top s x declared t) :=
  (Silent.demand _).bind fun _ => (Silent.reportIf _ _).bind fun _ =>
    .settleBinding _ s x declared t

/-- **A quiet pass does nothing**: nothing in a tree makes it report a mistake or bind a name. -/
theorem analyze_silent (shadowing : Shadowing) (e : Expr) : Silent (e.analyze shadowing) := by
  induction e with
  | literal s v => exact (Silent.pure _).inside
  | ident s x =>
    refine (Silent.get.bind fun p => ?_).inside
    cases p.bindings.get? x with
    | some b => exact .pure _
    | none => exact (Silent.report _).bind fun _ => .pure _
  | unary s op e ih =>
    exact (ih.bind fun t => .node _ _).inside
  | binary s op l r ihl ihr =>
    exact (ihl.bind fun tl => ihr.bind fun tr => .node _ _).inside
  | cond s c a b ihc iha ihb =>
    exact (ihc.bind fun tc => iha.bind fun ta => ihb.bind fun tb => .node _ _).inside
  | lambda s params body => exact ((Silent.report _).bind fun _ => .pure _).inside
  | define s x declared e ih =>
    exact (Silent.get.bind fun p => ih.bind fun t =>
      Silent.settleDefinition _ _ s x declared t).inside

/-! ## 4. A loud pass agrees with the checker -/

/-- `Performs p x m`: from `p` on, `m` does what `x` says.  It gives the same and leaves the same
bindings, or it reports the same, changes nothing else and goes on with something. -/
def Performs {α : Type} (p : Pass) (x : Except TypeError (α × Bindings)) (m : StateM Pass α) :
    Prop :=
  match x with
  | .ok (a, Γ) => m.run p = (a, { p with bindings := Γ })
  | .error err => (m.run p).2 = p.fail err

/-- The same where no name is bound. -/
def Recovers {α : Type} (p : Pass) (x : Except TypeError α) (m : StateM Pass α) : Prop :=
  Performs p (x.map (·, p.bindings)) m

section Loud

variable {α β : Type} {p : Pass} {x : Except TypeError α} {m : StateM Pass α}

theorem Recovers.pure (p : Pass) (a : α) : Recovers p (.ok a) (pure a) := rfl

theorem Recovers.get {f : Pass → StateM Pass α} (h : Recovers p x (f p)) :
    Recovers p x (get >>= f) := h

/-- After a step that fails the rest of the sequence is silent. -/
theorem Recovers.perform {k : α → Except TypeError (β × Bindings)} {f : α → StateM Pass β}
    (h : Recovers p x m) (hk : ∀ a, x = .ok a → Performs p (k a) (f a))
    (hf : ∀ a, Silent (f a)) : Performs p (x >>= k) (m >>= f) := by
  cases x with
  | ok a =>
    have hrun : m.run p = (a, p) := h
    have hbind : (m >>= f).run p = (f a).run p := by rw [run_bind_eq, hrun]
    have ha := hk a rfl
    rw [ok_bind]
    unfold Performs at ha ⊢
    rw [hbind]
    exact ha
  | error err =>
    have hrun : (m.run p).2 = p.fail err := h
    show ((m >>= f).run p).2 = p.fail err
    rw [run_bind_eq, hrun]
    exact hf _ _ rfl

theorem Recovers.bind {k : α → Except TypeError β} {f : α → StateM Pass β} (h : Recovers p x m)
    (hk : ∀ a, x = .ok a → Recovers p (k a) (f a)) (hf : ∀ a, Silent (f a)) :
    Recovers p (x >>= k) (m >>= f) := by
  have mapped : (x >>= k).map (·, p.bindings) = x >>= fun a => (k a).map (·, p.bindings) := by
    cases x <;> rfl
  rw [Recovers, mapped]
  exact h.perform hk hf

theorem Performs.inside {x : Except TypeError (α × Bindings)} (h : Performs p.enter x m) :
    Performs p x (inside m) := by
  cases x with
  | ok r =>
    have hrun : m.run p.enter = (r.1, { p.enter with bindings := r.2 }) := h
    show (ExprLang.inside m).run p = (r.1, { p with bindings := r.2 })
    rw [run_inside, hrun]
    rfl
  | error err =>
    have hrun : (m.run p.enter).2 = p.enter.fail err := h
    show ((ExprLang.inside m).run p).2 = p.fail err
    rw [run_inside, hrun, p.leave_fail_enter]

theorem Recovers.inside (h : Recovers p.enter x m) : Recovers p x (inside m) := Performs.inside h

/-- A report of a loud pass, and whatever silent things come after it. -/
theorem Performs.report (hp : p.quiet = false) (err : TypeError) (hm : Silent m) :
    Performs p (.error err) (report err >>= fun _ => m) := by
  show ((ExprLang.report err >>= fun _ => m).run p).2 = p.fail err
  rw [run_bind_eq, run_report, if_neg (by rw [hp]; exact Bool.false_ne_true)]
  exact hm _ rfl

theorem Recovers.report (hp : p.quiet = false) (err : TypeError) (hm : Silent m) :
    Recovers p (.error err) (report err >>= fun _ => m) := Performs.report hp err hm

theorem Recovers.settle (hp : p.quiet = false) (x : Except TypeError Ty) :
    Recovers p x (settle x) := by
  cases x with
  | ok ty => exact .pure p ty
  | error err => exact .report hp err (.pure _)

theorem Recovers.node (hp : p.quiet = false) (x : Except TypeError Ty) (mk : Ty → Typed) :
    Recovers p (x >>= fun ty => Pure.pure (mk ty))
      (ExprLang.settle x >>= fun ty => Pure.pure (mk ty)) :=
  (Recovers.settle hp x).bind (fun _ _ => .pure p _) fun _ => .pure _

theorem Recovers.demand (hp : p.quiet = false) (x : Except TypeError Unit) :
    Recovers p x (demand x) := by
  cases x with
  | ok u => exact .pure p ()
  | error err => exact .report hp err (.pure ())

end Loud

theorem infer_cond_eq (Γ : Bindings) (s : Span) (c a b : Expr) :
    (Expr.cond s c a b).infer Γ = do
      let tc ← c.infer Γ
      let ta ← a.infer Γ
      let tb ← b.infer Γ
      let ty ← condRule s tc ta tb
      return .cond ⟨ty, s⟩ tc ta tb := by
  rw [Expr.infer]
  refine bind_congr fun tc => bind_congr fun ta => bind_congr fun tb => ?_
  by_cases hc : tc.ty = .bool
  · by_cases hb : ta.ty = tb.ty <;> simp [condRule, hc, hb]
  · simp [condRule, hc]

/-- A type that is no error is compared as the checker compares it. -/
theorem applyKnown_eq_apply {op : BinaryOp} {left right : Ty} (h : left ≠ .error) :
    op.applyKnown left right = op.apply left right := by
  rw [BinaryOp.applyKnown, if_neg fun hc => h hc.2]

/-- The rules of a definition that is part of a statement: if no other fails first, its place
does. -/
theorem nestedDefinition_recovers {p : Pass} (hp : p.quiet = false) (shadowing : Shadowing)
    (s : Span) (x : String) (declared : Option Ty) (t : Typed) :
    Recovers p (reportAt s (declarationRule x declared t.ty) >>= fun _ => .error ⟨s, .nested x⟩)
      (settleDefinition shadowing false s x declared t) :=
  (Recovers.demand hp _).bind (fun _ _ => .report hp _ (.settleBinding _ s x declared t))
    fun _ => (Silent.reportIf _ _).bind fun _ => .settleBinding _ s x declared t

/-- **A loud pass agrees with the checker** on whatever is part of a statement, and on statements
that are no definitions. -/
theorem analyze_recovers (shadowing : Shadowing) (e : Expr) :
    ∀ p : Pass, p.quiet = false → p.bindings.Sound → (e.isDefinition = true → 0 < p.depth) →
      Recovers p (e.infer p.bindings) (e.analyze shadowing) := by
  induction e with
  | literal s v =>
    intro p _ _ _
    exact (Recovers.pure p.enter _).inside
  | ident s x =>
    intro p hp _ _
    have loud : p.enter.quiet = false := hp
    refine (Recovers.get ?_).inside
    rw [Expr.infer, Pass.bindings_enter]
    cases p.bindings.get? x with
    | some b => exact .pure _ _
    | none => exact .report loud _ (.pure _)
  | unary s op e ih =>
    intro p hp hΓ _
    have loud : p.enter.quiet = false := hp
    have he := ih p.enter loud hΓ fun _ => Nat.succ_pos _
    exact (he.bind (fun t _ => .node loud _ _) fun t => .node _ _).inside
  | binary s op l r ihl ihr =>
    intro p hp hΓ _
    have loud : p.enter.quiet = false := hp
    have hl := ihl p.enter loud hΓ fun _ => Nat.succ_pos _
    have hr := ihr p.enter loud hΓ fun _ => Nat.succ_pos _
    refine (hl.bind (fun tl hok => ?_) fun tl =>
      (analyze_silent shadowing r).bind fun tr => .node _ _).inside
    refine hr.bind (fun tr _ => ?_) fun tr => .node _ _
    rw [applyKnown_eq_apply (wellTyped_of_infer hΓ hok).ty_ne_error]
    exact .node loud _ _
  | cond s c a b ihc iha ihb =>
    intro p hp hΓ _
    have loud : p.enter.quiet = false := hp
    have hc := ihc p.enter loud hΓ fun _ => Nat.succ_pos _
    have ha := iha p.enter loud hΓ fun _ => Nat.succ_pos _
    have hb := ihb p.enter loud hΓ fun _ => Nat.succ_pos _
    have silent_b : ∀ tc ta, Silent (b.analyze shadowing >>= fun tb =>
        settle (condRule s tc ta tb) >>= fun ty => pure (Typed.cond ⟨ty, s⟩ tc ta tb)) :=
      fun tc ta => (analyze_silent shadowing b).bind fun tb => .node _ _
    rw [infer_cond_eq]
    refine (hc.bind (fun tc _ => ?_) fun tc =>
      (analyze_silent shadowing a).bind fun ta => silent_b tc ta).inside
    refine ha.bind (fun ta _ => ?_) fun ta => silent_b tc ta
    exact hb.bind (fun tb _ => .node loud _ _) fun tb => .node _ _
  | lambda s params body =>
    intro p hp _ _
    have loud : p.enter.quiet = false := hp
    exact Recovers.inside (.report loud _ (.pure _))
  | define s x declared e ih =>
    intro p hp hΓ hdepth
    have loud : p.enter.quiet = false := hp
    have he := ih p.enter loud hΓ fun _ => Nat.succ_pos _
    have nested : (p.enter.depth == 1) = false := by
      have := hdepth rfl
      simp only [Pass.enter, beq_eq_false_iff_ne]
      omega
    refine (Recovers.get ?_).inside
    rw [nested]
    exact he.bind (fun t _ => nestedDefinition_recovers loud shadowing s x declared t)
      fun t => .settleDefinition _ _ s x declared t

/-- What a definition binds: a literal, to a name that may be bound. -/
theorem settleBinding_performs {p : Pass} (hp : p.quiet = false) (shadowing : Shadowing) (s : Span)
    (x : String) {declared : Option Ty} {t : Typed} (hd : declared.getD t.ty = t.ty) :
    Performs p
      (match t.literal? with
        | none => .error ⟨t.span, .notLiteral x⟩
        | some v =>
          if shadowing = .forbid ∧ p.bindings.contains x then .error ⟨s, .redefinition x⟩
          else .ok (.define ⟨.unit, s⟩ x t, p.bindings.insert x ⟨t.ty, v⟩))
      (settleBinding shadowing s x declared t) := by
  have silent : ∀ q : Pass, Silent (reportIf (shadowing = .forbid ∧ q.bindings.contains x)
      ⟨s, .redefinition x⟩ >>= fun _ => install s x declared t) :=
    fun q => (Silent.reportIf _ _).bind fun _ => .install s x declared t
  rw [settleBinding]
  cases hv : t.literal? with
  | none => exact .report hp _ (Silent.get.bind silent)
  | some v =>
    -- a literal raises no report, so the name is next
    show Performs p _
      (reportIf (shadowing = .forbid ∧ p.bindings.contains x) ⟨s, .redefinition x⟩ >>=
        fun _ => install s x declared t)
    by_cases hbound : shadowing = .forbid ∧ p.bindings.contains x
    · rw [decide_eq_true hbound]
      simp only [if_pos hbound]
      exact .report hp _ (.install s x declared t)
    · rw [decide_eq_false hbound]
      simp only [if_neg hbound]
      show (install s x declared t).run p = _
      simp only [install, run_modifyGet, hv, hp, Bool.false_eq_true, if_false, hd, Pass.bind]

/-- **A loud pass agrees with the checker** on whole statements. -/
theorem analyze_performs (shadowing : Shadowing) (e : Expr) {p : Pass} (hp : p.quiet = false)
    (hΓ : p.bindings.Sound) (hdepth : p.depth = 0) :
    Performs p (e.check shadowing p.bindings) (e.analyze shadowing) := by
  cases he : e.isDefinition with
  | false =>
    have h := analyze_recovers shadowing e p hp hΓ fun hd => absurd (he.symm.trans hd) (by decide)
    rw [check_eq_infer he]
    exact h
  | true =>
    cases e with
    | define s x declared e =>
      have loud : p.enter.quiet = false := hp
      have top : (p.enter.depth == 1) = true := by simp [Pass.enter, hdepth]
      have value := analyze_recovers shadowing e p.enter loud hΓ fun _ => Nat.succ_pos _
      refine Performs.inside ?_
      show Performs p.enter _ (e.analyze shadowing >>= fun t =>
        settleDefinition shadowing (p.enter.depth == 1) s x declared t)
      rw [top]
      refine value.perform (fun t _ => ?_) fun t => .settleDefinition _ _ s x declared t
      refine (Recovers.demand loud _).perform (fun _ hok => ?_)
        fun _ => .settleBinding _ s x declared t
      have declaredTy : declared.getD t.ty = t.ty := by
        rcases declarationRule_eq_ok.mp (reportAt_eq_ok.mp hok) with rfl | rfl <;> rfl
      exact settleBinding_performs loud shadowing s x declaredTy
    | _ => simp [Expr.isDefinition] at he

/-! ## 5. Lists of statements -/

/-- The errors of an outcome; there are none if it is no failure. -/
def errorsOf {α : Type} : Except (List TypeError) α → List TypeError
  | .ok _ => []
  | .error errs => errs

/-- `p.Yields out r`: where the checker comes to `out`, the pass that began as `p` comes to `r`.
What was reported before stays in front, and a failure stays a failure. -/
structure Pass.Yields (p : Pass) (out : Checked × Bindings) (r : List Typed × Pass) : Prop where
  trees : ∀ ts, out.1 = .ok ts → r.1 = ts
  errors : r.2.errors = p.errors ++ errorsOf out.1
  failed : r.2.failed = (p.failed || !out.1.isOk)
  bindings : r.2.bindings = out.2

namespace Pass.Yields

variable {p q : Pass} {out : Checked × Bindings} {r : List Typed × Pass}

theorem nil (p : Pass) : p.Yields (.ok [], p.bindings) ([], p) :=
  ⟨fun _ h => Except.ok.inj h, (List.append_nil _).symm, (Bool.or_false _).symm, rfl⟩

/-- An accepted statement in front. -/
theorem cons_ok (h : q.Yields out r) (he : q.errors = p.errors) (hf : q.failed = p.failed)
    (t : Typed) :
    p.Yields (.cons (.ok t) out.1, out.2) (t :: r.1, r.2) := by
  obtain ⟨trees, errors, failed, bindings⟩ := h
  cases hout : out.1 with
  | ok us =>
    rw [hout] at errors failed
    refine ⟨fun ts hts => ?_, he ▸ errors, hf ▸ failed, bindings⟩
    rw [trees us hout]
    exact Except.ok.inj hts
  | error errs =>
    rw [hout] at errors failed
    exact ⟨fun ts hts => absurd hts (by simp [Checked.cons]), he ▸ errors, hf ▸ failed, bindings⟩

/-- A rejected statement in front, whatever tree the pass made of it. -/
theorem cons_error {err : TypeError} (h : (q.fail err).Yields out r) (he : q.errors = p.errors)
    (t : Typed) : p.Yields (.cons (.error err) out.1, out.2) (t :: r.1, r.2) := by
  obtain ⟨-, errors, failed, bindings⟩ := h
  have first : r.2.errors = p.errors ++ err :: errorsOf out.1 := by
    rw [errors, ← he, Pass.fail, List.append_assoc, List.singleton_append]
  have sticky : r.2.failed = true := failed
  cases hout : out.1 with
  | ok us =>
    rw [hout] at first
    exact ⟨fun ts hts => absurd hts (by simp [Checked.cons]), first,
      sticky.trans (Bool.or_true _).symm, bindings⟩
  | error errs =>
    rw [hout] at first
    exact ⟨fun ts hts => absurd hts (by simp [Checked.cons]), first,
      sticky.trans (Bool.or_true _).symm, bindings⟩

/-- A pass that begins with no report ends with the outcome of the checker. -/
theorem finish {Γ : Bindings} (h : (Pass.start Γ).Yields out r) : r.2.finish r.1 = out.1 := by
  obtain ⟨trees, errors, failed, -⟩ := h
  rw [Pass.finish, errors, failed]
  cases hout : out.1 with
  | ok ts =>
    rw [trees ts hout]
    rfl
  | error errs => rfl

end Pass.Yields

/-- **The pass over a list of statements agrees with the checker**, whatever state it comes from:
each statement finds the bindings of the ones before it and no trace of their mistakes. -/
theorem analyzeAll_yields (shadowing : Shadowing) :
    ∀ (es : List Expr) (p : Pass), p.bindings.Sound →
      p.Yields (checkAll shadowing p.bindings es) ((analyzeAll shadowing es).run p)
  | [], p, _ => .nil p
  | e :: es, p, hΓ => by
    have first : Performs p.synchronize (e.check shadowing p.bindings) (e.analyze shadowing) :=
      analyze_performs shadowing e rfl hΓ rfl
    have hrun : (analyzeAll shadowing (e :: es)).run p =
        (((e.analyze shadowing).run p.synchronize).1 ::
          ((analyzeAll shadowing es).run ((e.analyze shadowing).run p.synchronize).2).1,
        ((analyzeAll shadowing es).run ((e.analyze shadowing).run p.synchronize).2).2) := rfl
    rw [hrun, checkAll]
    cases he : e.check shadowing p.bindings with
    | ok r =>
      obtain ⟨t, Γ⟩ := r
      have hΓ' : Γ.Sound := check_invariant (fun _ x v h => h.insert x v) e p.bindings t Γ hΓ he
      rw [he] at first
      have done : (e.analyze shadowing).run p.synchronize =
          (t, { p.synchronize with bindings := Γ }) := first
      rw [done]
      have rest := analyzeAll_yields shadowing es { p.synchronize with bindings := Γ } hΓ'
      exact rest.cons_ok (p := p) rfl rfl t
    | error err =>
      rw [he] at first
      have done : ((e.analyze shadowing).run p.synchronize).2 = p.synchronize.fail err := first
      rw [done]
      have rest := analyzeAll_yields shadowing es (p.synchronize.fail err) hΓ
      exact rest.cons_error (p := p) rfl _

/-- **One pass over a program answers what the checker answers**, and leaves the same session. -/
theorem Session.onePass_eq_checkProgram {s : Session} (h : s.bindings.Sound) (es : List Expr) :
    s.onePass es = s.checkProgram es := by
  have yields := analyzeAll_yields s.shadowing es (.start s.bindings) h
  refine Prod.ext yields.finish ?_
  show { s with bindings := ((analyzeAll s.shadowing es).run (.start s.bindings)).2.bindings } =
    { s with bindings := (checkAll s.shadowing s.bindings es).2 }
  rw [yields.bindings]
  rfl

end ExprLang
