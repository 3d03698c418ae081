/-
# What the two policies have in common

A definition of a name that is bound is accepted under one policy and rejected under the other.
This is all that a policy decides.  `Expr.restricted` says what becomes of the answer to a statement
when bound names may not be bound again, and **the strict checker is the lenient one with this
restriction** (`check_forbid`).

A pass that goes on after mistakes asks for the policy in other places too: at definitions inside a
statement, and at those that have a mistake already.  There it makes no difference.  `Steady` says
of a part of the pass that it does the same under both policies, and everything inside a statement
is steady (`analyze_steady`), under whatever table, also one that holds the type of errors.

So as long as nothing is rejected for redefinition, two sessions that differ in their policies only
give the same answers and keep the same tables (`Session.respond_indifferent` for one request).
-/
import ExprLang.Proofs.Locality
import ExprLang.Proofs.Places

namespace ExprLang

/-! ## 1. The checker -/

/-- The answer to a statement when bound names may not be bound again, given the answer when they
may. -/
def Expr.restricted (e : Expr) (Γ : Bindings) :
    Except TypeError (Typed × Bindings) → Except TypeError (Typed × Bindings)
  | .error err => .error err
  | .ok r =>
    match e.defined? with
    | some x => if Γ.contains x then .error ⟨e.span, .redefinition x⟩ else .ok r
    | none => .ok r

theorem restricted_of_expression {e : Expr} (he : e.isDefinition = false) (Γ : Bindings)
    (r : Except TypeError (Typed × Bindings)) : e.restricted Γ r = r := by
  have unnamed : e.defined? = none := by
    cases e with
    | define s x declared e => simp [Expr.isDefinition] at he
    | _ => rfl
  cases r with
  | error err => rfl
  | ok r => rw [Expr.restricted, unnamed]

/-- Everything that can become of a statement that is accepted. -/
theorem restricted_ok (e : Expr) (Γ : Bindings) (r : Typed × Bindings) :
    (∃ x, e.defined? = some x ∧ Γ.contains x = true ∧
        e.restricted Γ (.ok r) = .error ⟨e.span, .redefinition x⟩) ∨
      (∀ x, e.defined? = some x → Γ.contains x = false) ∧ e.restricted Γ (.ok r) = .ok r := by
  unfold Expr.restricted
  cases e.defined? with
  | none => exact Or.inr ⟨fun _ h => (by cases h), rfl⟩
  | some x =>
    cases hx : Γ.contains x with
    | true => exact Or.inl ⟨x, rfl, hx, by simp [hx]⟩
    | false =>
      refine Or.inr ⟨fun y hy => ?_, by simp [hx]⟩
      rw [← Option.some.inj hy, hx]

/-- The answer to a definition with the given typed value. -/
def definitionAnswer (s : Span) (x : String) (declared : Option Ty) (Γ : Bindings)
    (shadowing : Shadowing) (t : Typed) : Except TypeError (Typed × Bindings) :=
  reportAt s (declarationRule x declared t.ty) >>= fun _ =>
    match t.literal? with
    | none => .error ⟨t.span, .notLiteral x⟩
    | some v =>
      if shadowing = .forbid ∧ Γ.contains x then .error ⟨s, .redefinition x⟩
      else .ok (.define ⟨.unit, s⟩ x t, Γ.insert x ⟨t.ty, v⟩)

/-- The policy is the last rule of a definition, so it restricts what the other rules accept. -/
theorem definitionAnswer_forbid (s : Span) (x : String) (declared : Option Ty) (e : Expr)
    (Γ : Bindings) (value : Except TypeError Typed) :
    (value >>= definitionAnswer s x declared Γ .forbid) =
      (Expr.define s x declared e).restricted Γ
        (value >>= definitionAnswer s x declared Γ .allow) := by
  cases value with
  | error err => rfl
  | ok t =>
    rw [ok_bind, ok_bind, definitionAnswer, definitionAnswer]
    cases reportAt s (declarationRule x declared t.ty) with
    | error err => rfl
    | ok u =>
      cases t.literal? with
      | none => rfl
      | some v => simp [ok_bind, Expr.restricted, Expr.defined?, Expr.span]

theorem check_define (s : Span) (x : String) (declared : Option Ty) (e : Expr) (Γ : Bindings)
    (shadowing : Shadowing) :
    (Expr.define s x declared e).check shadowing Γ =
      (e.infer Γ >>= definitionAnswer s x declared Γ shadowing) := by
  rw [Expr.check]
  refine bind_congr fun t => bind_congr fun _ => ?_
  cases t.literal? with
  | none => rfl
  | some v =>
    simp only
    split
    · rfl
    · rfl

/-- **The strict checker is the lenient one, restricted.** -/
theorem check_forbid (Γ : Bindings) (e : Expr) :
    e.check .forbid Γ = e.restricted Γ (e.check .allow Γ) := by
  cases he : e.isDefinition with
  | false => rw [restricted_of_expression he, check_eq_infer he, check_eq_infer he]
  | true =>
    cases e with
    | define s x declared e => rw [check_define, check_define, definitionAnswer_forbid (e := e)]
    | _ => simp [Expr.isDefinition] at he

/-! ## 2. A pass that goes on after mistakes -/

/-- `Steady p m`: from `p` on, `m` does the same under both policies.  It gives one and the same
result and changes nothing, or it makes one and the same report. -/
def Steady {α : Type} (p : Pass) (m : Shadowing → StateM Pass α) : Prop :=
  ∃ x, ∀ shadowing, Recovers p x (m shadowing)

section Steady

variable {α β : Type} {p : Pass} {m : Shadowing → StateM Pass α} {f : Shadowing → α → StateM Pass β}

theorem Steady.bind (hm : Steady p m) (hf : ∀ a, Steady p fun shadowing => f shadowing a)
    (silent : ∀ shadowing a, Silent (f shadowing a)) :
    Steady p fun shadowing => m shadowing >>= f shadowing := by
  obtain ⟨x, hx⟩ := hm
  obtain ⟨k, hk⟩ := Classical.skolem.mp hf
  exact ⟨x >>= k,
    fun shadowing => (hx shadowing).bind (fun a _ => hk a shadowing) (silent shadowing)⟩

theorem Steady.inside (h : Steady p.enter m) : Steady p fun shadowing => inside (m shadowing) := by
  obtain ⟨x, hx⟩ := h
  exact ⟨x, fun shadowing => (hx shadowing).inside⟩

theorem Steady.node (hp : p.quiet = false) (x : Except TypeError Ty) (mk : Ty → Typed) :
    Steady p fun _ => settle x >>= fun ty => pure (mk ty) :=
  ⟨_, fun _ => .node hp x mk⟩

end Steady

/-- **Inside a statement the policy makes no difference**, and neither does it to a statement that
is no definition. -/
theorem analyze_steady (e : Expr) :
    ∀ p : Pass, p.quiet = false → (e.isDefinition = true → 0 < p.depth) →
      Steady p fun shadowing => e.analyze shadowing := by
  induction e with
  | literal s v =>
    intro p _ _
    exact Steady.inside ⟨_, fun _ => .pure _ _⟩
  | ident s x =>
    intro p hp _
    have loud : p.enter.quiet = false := hp
    refine Steady.inside ?_
    cases hx : p.enter.bindings.get? x with
    | some b =>
      refine ⟨.ok (.ident ⟨b.ty, s⟩ x (some b.value)), fun _ => Recovers.get ?_⟩
      rw [hx]
      exact .pure _ _
    | none =>
      refine ⟨.error ⟨s, .undefined x⟩, fun _ => Recovers.get ?_⟩
      rw [hx]
      exact .report loud _ (.pure _)
  | unary s op e ih =>
    intro p hp _
    have loud : p.enter.quiet = false := hp
    have he := ih p.enter loud fun _ => Nat.succ_pos _
    exact (he.bind (fun t => .node loud _ _) fun _ t => .node _ _).inside
  | binary s op l r ihl ihr =>
    intro p hp _
    have loud : p.enter.quiet = false := hp
    have hl := ihl p.enter loud fun _ => Nat.succ_pos _
    have hr := ihr p.enter loud fun _ => Nat.succ_pos _
    refine (hl.bind (fun tl => ?_) fun shadowing tl =>
      (analyze_silent shadowing r).bind fun tr => .node _ _).inside
    exact hr.bind (fun tr => .node loud _ _) fun _ tr => .node _ _
  | cond s c a b ihc iha ihb =>
    intro p hp _
    have loud : p.enter.quiet = false := hp
    have hc := ihc p.enter loud fun _ => Nat.succ_pos _
    have ha := iha p.enter loud fun _ => Nat.succ_pos _
    have hb := ihb p.enter loud fun _ => Nat.succ_pos _
    have silent_b : ∀ shadowing tc ta, Silent (b.analyze shadowing >>= fun tb =>
        settle (condRule s tc ta tb) >>= fun ty => pure (Typed.cond ⟨ty, s⟩ tc ta tb)) :=
      fun shadowing tc ta => (analyze_silent shadowing b).bind fun tb => .node _ _
    refine (hc.bind (fun tc => ?_) fun shadowing tc =>
      (analyze_silent shadowing a).bind fun ta => silent_b shadowing tc ta).inside
    refine ha.bind (fun ta => ?_) fun shadowing ta => silent_b shadowing tc ta
    exact hb.bind (fun tb => .node loud _ _) fun _ tb => .node _ _
  | lambda s params body =>
    intro p hp _
    have loud : p.enter.quiet = false := hp
    exact Steady.inside ⟨_, fun _ => .report loud _ (.pure _)⟩
  | define s x declared e ih =>
    intro p hp hdepth
    have loud : p.enter.quiet = false := hp
    have he := ih p.enter loud fun _ => Nat.succ_pos _
    have nested : (p.enter.depth == 1) = false := by
      have := hdepth rfl
      simp only [Pass.enter, beq_eq_false_iff_ne]
      omega
    -- The place of the definition is reported before the policy is asked for.
    have inner : Steady p.enter fun shadowing => e.analyze shadowing >>= fun t =>
        settleDefinition shadowing (p.enter.depth == 1) s x declared t := by
      rw [nested]
      exact he.bind
        (fun t => ⟨_, fun shadowing => nestedDefinition_recovers loud shadowing s x declared t⟩)
        fun shadowing t => .settleDefinition _ _ s x declared t
    obtain ⟨y, hy⟩ := inner
    exact Steady.inside ⟨y, fun shadowing => Recovers.get (hy shadowing)⟩

/-- **A strict pass over a statement is a lenient one, restricted**, whatever the table. -/
theorem analyze_forbid (Γ : Bindings) (e : Expr) :
    ∃ r : Shadowing → Except TypeError (Typed × Bindings),
    (∀ shadowing, Performs (.start Γ) (r shadowing) (e.analyze shadowing)) ∧
      r .forbid = e.restricted Γ (r .allow) := by
  cases he : e.isDefinition with
  | false =>
    obtain ⟨x, hx⟩ :=
      analyze_steady e (.start Γ) rfl fun hd => absurd (he.symm.trans hd) (by decide)
    exact ⟨fun _ => x.map (·, Γ), hx, (restricted_of_expression he Γ _).symm⟩
  | true =>
    cases e with
    | define s x declared e =>
      let p := (Pass.start Γ).enter
      obtain ⟨value, hvalue⟩ := analyze_steady e p rfl fun _ => Nat.succ_pos _
      refine ⟨fun shadowing => value >>= definitionAnswer s x declared Γ shadowing,
        fun shadowing => ?_, definitionAnswer_forbid s x declared e Γ value⟩
      refine Performs.inside ?_
      show Performs p _
        (e.analyze shadowing >>= fun t => settleDefinition shadowing true s x declared t)
      refine (hvalue shadowing).perform (fun t _ => ?_) fun t =>
        .settleDefinition _ _ s x declared t
      refine (Recovers.demand rfl _).perform (fun _ hok => ?_) fun _ =>
        .settleBinding _ s x declared t
      have declaredTy : declared.getD t.ty = t.ty := by
        rcases declarationRule_eq_ok.mp (reportAt_eq_ok.mp hok) with rfl | rfl <;> rfl
      exact settleBinding_performs rfl shadowing s x declaredTy
    | _ => simp [Expr.isDefinition] at he

/-! ## 3. One statement -/

/-- The answer to a call, and the table after it. -/
def visible {α : Type} (r : α × Session) : α × Bindings := (r.1, r.2.bindings)

/-- A statement is accepted under the lenient policy, and defines a name that is bound. -/
structure Rebinds {α : Type} (Γ : Bindings) (e : Expr)
    (ask : Shadowing → Except (List TypeError) α × Bindings) (x : String) : Prop where
  accepted : ∃ a, (ask .allow).1 = .ok a
  defined : e.defined? = some x
  bound : Γ.contains x = true

/-- Under both policies a statement has the same answer and leaves the same table, except when it
rebinds a name: then the strict answer is this one error, and the table stays. -/
structure DifferByRedefinition {α : Type} (Γ : Bindings) (e : Expr)
    (ask : Shadowing → Except (List TypeError) α × Bindings) : Prop where
  same_iff : ask .forbid = ask .allow ↔ ∀ x, ¬ Rebinds Γ e ask x
  redefinition : ∀ x, Rebinds Γ e ask x → ask .forbid = (.error [⟨e.span, .redefinition x⟩], Γ)

section Answer

variable {α : Type} (Γ : Bindings)

/-- The answer that a caller gets, with the table after it; an error leaves the table as it is. -/
def settled (mk : Typed → α) :
    Except TypeError (Typed × Bindings) → Except (List TypeError) α × Bindings
  | .ok (t, Γ') => (.ok (mk t), Γ')
  | .error err => (.error [err], Γ)

/-- A restriction is seen exactly where a name is rebound. -/
theorem differByRedefinition_of_restricted {e : Expr} {mk : Typed → α}
    {r : Shadowing → Except TypeError (Typed × Bindings)}
    (hr : r .forbid = e.restricted Γ (r .allow)) :
    DifferByRedefinition Γ e fun p => settled Γ mk (r p) := by
  cases hallow : r .allow with
  | error err =>
    have refused : ∀ x, ¬ Rebinds Γ e (fun p => settled Γ mk (r p)) x := by
      rintro x ⟨⟨a, ha⟩, -, -⟩
      simp only [hallow, settled] at ha
      cases ha
    refine ⟨iff_of_true ?_ refused, fun x hx => absurd hx (refused x)⟩
    simp only [hr, hallow, Expr.restricted]
  | ok u =>
    rw [hallow] at hr
    rcases restricted_ok e Γ u with ⟨x, hx, hbound, strict⟩ | ⟨free, strict⟩
    · rw [strict] at hr
      have rebinds : Rebinds Γ e (fun p => settled Γ mk (r p)) x :=
        ⟨⟨mk u.1, by simp only [hallow, settled]⟩, hx, hbound⟩
      refine ⟨iff_of_false ?_ fun h => h x rebinds, fun y hy => ?_⟩
      · simp [hr, hallow, settled]
      · obtain rfl : x = y := Option.some.inj (hx.symm.trans hy.defined)
        simp only [hr, settled]
    · have free' : ∀ x, ¬ Rebinds Γ e (fun p => settled Γ mk (r p)) x := by
        intro x hx
        have unbound := free x hx.defined
        rw [hx.bound] at unbound
        cases unbound
      refine ⟨iff_of_true ?_ free', fun x hx => absurd hx (free' x)⟩
      simp only [hr, hallow, strict]

end Answer

namespace Session

/-- The session under a policy. -/
def under (s : Session) (p : Shadowing) : Session := { s with shadowing := p }

theorem check_under (s : Session) (p : Shadowing) (e : Expr) :
    (s.under p).check e = match e.check p s.bindings with
      | .ok (t, bindings) => (.ok t, { s.under p with bindings })
      | .error err => (.error [err], s.under p) := rfl

theorem visible_check (s : Session) (p : Shadowing) (e : Expr) :
    visible ((s.under p).check e) = settled s.bindings id (e.check p s.bindings) := by
  rw [check_under]
  cases e.check p s.bindings with
  | ok r => rfl
  | error err => rfl

/-- A pass over one statement answers as its analysis ends. -/
theorem visible_onePass (s : Session) (p : Shadowing) {e : Expr}
    {r : Except TypeError (Typed × Bindings)} (h : Performs (.start s.bindings) r (e.analyze p)) :
    visible ((s.under p).onePass [e]) = settled s.bindings ([·]) r := by
  let ended := (e.analyze p).run (.start s.bindings)
  have pass : visible ((s.under p).onePass [e]) = (ended.2.finish [ended.1], ended.2.bindings) :=
    rfl
  rw [pass]
  cases r with
  | ok u =>
    have done : ended = (u.1, { Pass.start s.bindings with bindings := u.2 }) := h
    rw [done]
    rfl
  | error err =>
    have done : ended.2 = (Pass.start s.bindings).fail err := h
    rw [done]
    rfl

/-! ## 4. Runs -/

/-- The codes of the errors in an answer. -/
def Answer.codes : Answer → List String
  | .checked outcome => (errorsOf outcome).map TypeError.code
  | .programChecked outcome => (errorsOf outcome).map TypeError.code
  | .compiled (.error (.error (.rejected ds))) => ds.filterMap Diagnostic.code
  | _ => []

/-- The answers to requests, one after another, each with the table after it. -/
def answers : Session → List Request → List (Answer × Bindings)
  | _, [] => []
  | s, r :: rs => visible (s.respond r) :: (s.respond r).2.answers rs

end Session

theorem check_allow {Γ : Bindings} {e : Expr}
    (h : ∀ err, e.check .forbid Γ = .error err → err.code ≠ "E010") :
    e.check .allow Γ = e.check .forbid Γ := by
  rw [check_forbid] at h ⊢
  cases hallow : e.check .allow Γ with
  | error err => rfl
  | ok r =>
    rw [hallow] at h
    rcases restricted_ok e Γ r with ⟨x, -, -, strict⟩ | ⟨-, strict⟩
    · exact absurd rfl (h _ strict)
    · exact strict.symm

theorem errorsOf_cons_ok (t : Typed) (out : Checked) :
    errorsOf (Checked.cons (.ok t) out) = errorsOf out := by
  cases out <;> rfl

theorem errorsOf_cons_error (err : TypeError) (out : Checked) :
    errorsOf (Checked.cons (.error err) out) = err :: errorsOf out := by
  cases out <;> rfl

/-- Where no statement is rejected for redefinition, all of them are answered alike. -/
theorem checkAll_allow {es : List Expr} : ∀ {Γ : Bindings},
    (∀ err ∈ errorsOf (checkAll .forbid Γ es).1, err.code ≠ "E010") →
      checkAll .allow Γ es = checkAll .forbid Γ es := by
  induction es with
  | nil => exact fun _ => rfl
  | cons e es ih =>
    intro Γ h
    rw [checkAll] at h
    rw [checkAll, checkAll]
    cases hstrict : e.check .forbid Γ with
    | ok r =>
      have same := check_allow (Γ := Γ) (e := e) fun err herr => by rw [hstrict] at herr; cases herr
      simp only [hstrict, errorsOf_cons_ok] at h
      simp only [same, hstrict, ih h]
    | error err =>
      simp only [hstrict, errorsOf_cons_error] at h
      have same := check_allow (Γ := Γ) (e := e) fun err' herr => by
        rw [hstrict] at herr
        rw [← Except.error.inj herr]
        exact h err List.mem_cons_self
      simp only [same, hstrict, ih fun err' herr => h err' (List.mem_cons_of_mem err herr)]

namespace Session

/-- Whatever the policy, there is one answer, and one session but for its policy. -/
def Indifferent {α : Type} (ask : Shadowing → α × Session) : Prop :=
  ∃ (a : α) (s' : Session), ∀ p, ask p = (a, s'.under p)

section Indifferent

variable {s : Session}

theorem Indifferent.map {α β : Type} {ask : Shadowing → α × Session} (h : Indifferent ask)
    (f : α → β) :
    Indifferent fun p => (f (ask p).1, (ask p).2) := by
  obtain ⟨a, s', hask⟩ := h
  exact ⟨f a, s', fun p => by simp only [hask p]⟩

theorem check_indifferent {e : Expr}
    (h : ∀ err ∈ errorsOf ((s.under .forbid).check e).1, err.code ≠ "E010") :
    Indifferent fun p => (s.under p).check e := by
  rw [check_under] at h
  have same : e.check .allow s.bindings = e.check .forbid s.bindings := by
    refine check_allow fun err herr => h err ?_
    rw [herr]
    exact List.mem_singleton_self err
  have policy : ∀ p, e.check p s.bindings = e.check .forbid s.bindings
    | .allow => same
    | .forbid => rfl
  simp only [check_under, policy]
  cases e.check .forbid s.bindings with
  | ok r => exact ⟨.ok r.1, { s with bindings := r.2 }, fun _ => rfl⟩
  | error err => exact ⟨.error [err], s, fun _ => rfl⟩

theorem checkProgram_indifferent {es : List Expr}
    (h : ∀ err ∈ errorsOf ((s.under .forbid).checkProgram es).1, err.code ≠ "E010") :
    Indifferent fun p => (s.under p).checkProgram es := by
  have policy : ∀ p, checkAll p s.bindings es = checkAll .forbid s.bindings es
    | .allow => checkAll_allow h
    | .forbid => rfl
  refine ⟨(checkAll .forbid s.bindings es).1,
    { s with bindings := (checkAll .forbid s.bindings es).2 }, fun p => ?_⟩
  rw [← policy p]
  rfl

/-- Code is generated from trees and lines, without the policy. -/
theorem compileProgram_indifferent {es : List Expr}
    (h : ∀ err ∈ errorsOf ((s.under .forbid).checkProgram es).1, err.code ≠ "E010") :
    Indifferent fun p => (s.under p).compileProgram es := by
  obtain ⟨outcome, s', checked⟩ := checkProgram_indifferent h
  simp only [compileProgram, checked]
  cases outcome with
  | ok ts => exact ⟨(s'.generateProgram ts).mapError .ofCode, s', fun _ => rfl⟩
  | error errs => exact ⟨.error (.ofTypeErrors errs), s', fun _ => rfl⟩

/-- A compilation reports the errors of the check. -/
theorem codes_compileProgram (s : Session) (es : List Expr) :
    (Answer.compiled (s.compileProgram es).1).codes =
      (errorsOf (s.checkProgram es).1).map TypeError.code := by
  rw [compileProgram]
  cases s.checkProgram es with
  | mk outcome s' =>
    cases outcome with
    | ok ts =>
      have generated : ∀ r : Except CodeFailure (Ty × Bytecode),
          (Answer.compiled (r.mapError .ofCode)).codes = [] := by
        intro r
        cases r with
        | ok r => rfl
        | error e => cases e <;> rfl
      exact generated _
    | error errs =>
      simp only [Failure.ofTypeErrors, Answer.codes, errorsOf, List.filterMap_map]
      exact congrFun (List.filterMap_eq_map (f := TypeError.code)) errs

theorem code_ne_of_not_mem {errs : List TypeError} {code : String}
    (h : code ∉ errs.map TypeError.code) :
    ∀ err ∈ errs, err.code ≠ code := by
  intro err herr heq
  exact h (heq ▸ List.mem_map_of_mem herr)

/-- **A request without a redefinition is answered alike under both policies.** -/
theorem respond_indifferent {r : Request} (h : "E010" ∉ ((s.under .forbid).respond r).1.codes) :
    Indifferent fun p => (s.under p).respond r := by
  have compiled : ∀ es, "E010" ∉ (Answer.compiled ((s.under .forbid).compileProgram es).1).codes →
      Indifferent fun p => (s.under p).respond (.compileProgram es) := by
    intro es hes
    rw [codes_compileProgram] at hes
    exact (compileProgram_indifferent (code_ne_of_not_mem hes)).map Answer.compiled
  cases r with
  | define x v => exact ⟨.done, s.define x v, fun _ => rfl⟩
  | check e => exact (check_indifferent (code_ne_of_not_mem h)).map Answer.checked
  | checkProgram es =>
    exact (checkProgram_indifferent (code_ne_of_not_mem h)).map Answer.programChecked
  | compile e =>
    have single : ∀ s : Session, s.respond (.compile e) = s.respond (.compileProgram [e]) := by
      intro s
      rw [respond, respond, compile_eq_compileProgram]
    simp only [single] at h ⊢
    exact compiled [e] h
  | compileProgram es => exact compiled es h
  | generate t => exact ⟨.generated (s.generate t), s, fun _ => rfl⟩
  | generateProgram ts => exact ⟨.generated (s.generateProgram ts), s, fun _ => rfl⟩

end Indifferent

/-- **A run without a redefinition is the same run under both policies**, answer for answer and
table for table. -/
theorem answers_indifferent {rs : List Request} : ∀ {s : Session},
    (∀ a ∈ (s.under .forbid).answers rs, "E010" ∉ a.1.codes) →
      (s.under .allow).answers rs = (s.under .forbid).answers rs := by
  induction rs with
  | nil => exact fun _ => rfl
  | cons r rs ih =>
    intro s h
    obtain ⟨answer, s', step⟩ : ∃ (answer : Answer) (s' : Session),
        ∀ p, (s.under p).respond r = (answer, s'.under p) :=
          respond_indifferent (h _ List.mem_cons_self)
    have later : ∀ a ∈ (s'.under .forbid).answers rs, "E010" ∉ a.1.codes := by
      intro a ha
      refine h a (List.mem_cons_of_mem _ ?_)
      rw [step .forbid]
      exact ha
    rw [answers, answers, step .allow, step .forbid, ih later]
    rfl

/-- **The two policies differ by the redefinition error only.**  For every table, a check of a
statement and a pass over it that goes on after mistakes have the same answer under both policies
and leave the same table, unless the statement would be accepted and rebinds a name; then the strict
answer is the one error that says so, at the statement, and the table stays.  Hence a run of
requests in which that error does not come up under the strict policy is the same run under the
lenient one. -/
theorem policies_differ_by_redefinition (s : Session) :
    (∀ e, DifferByRedefinition s.bindings e fun p => visible ((s.under p).check e)) ∧
    (∀ e, DifferByRedefinition s.bindings e fun p => visible ((s.under p).onePass [e])) ∧
    ∀ rs, (∀ a ∈ (s.under .forbid).answers rs, "E010" ∉ a.1.codes) →
      (s.under .allow).answers rs = (s.under .forbid).answers rs := by
  refine ⟨fun e => ?_, fun e => ?_, fun rs => answers_indifferent⟩
  · simp only [visible_check]
    exact differByRedefinition_of_restricted s.bindings (check_forbid s.bindings e)
  · obtain ⟨r, performs, restricted⟩ := analyze_forbid s.bindings e
    simp only [visible_onePass s _ (performs _)]
    exact differByRedefinition_of_restricted s.bindings restricted

/-- With `x` bound to zero, `let x = 1` is a redefinition, for a check and for a pass.  A run that
asks for `let y = "a"`, for `x + x`, for `!x` and for `y` under a new `x` has no such error. -/
theorem policies_differ_by_redefinition_rebound :
    let one := Value.number ⟨0x3FF0000000000000⟩
    let s := (new none .forbid).define "x" (.number ⟨0⟩)
    let x := Expr.ident .zero "x"
    let e := Expr.define ⟨0, 9⟩ "x" none (.literal ⟨8, 9⟩ one)
    let rs := [.check (.define .zero "y" none (.literal .zero (.str "a"))),
      .compile (.binary .zero .add x x), .check (.unary .zero .not x), .define "x" one,
      Request.checkProgram [.ident .zero "y", x]]
    visible ((s.under .forbid).check e) = (.error [⟨⟨0, 9⟩, .redefinition "x"⟩], s.bindings) ∧
      visible ((s.under .forbid).onePass [e]) = (.error [⟨⟨0, 9⟩, .redefinition "x"⟩], s.bindings) ∧
      (∀ a ∈ (s.under .forbid).answers rs, "E010" ∉ a.1.codes) ∧
      (s.under .allow).answers rs = (s.under .forbid).answers rs := by
  intro one s x e rs
  obtain ⟨checked, passed, run⟩ := policies_differ_by_redefinition s
  have checkRebinds : Rebinds s.bindings e (fun p => visible ((s.under p).check e)) "x" :=
    ⟨⟨_, rfl⟩, rfl, rfl⟩
  have passRebinds : Rebinds s.bindings e (fun p => visible ((s.under p).onePass [e])) "x" :=
    ⟨⟨_, rfl⟩, rfl, rfl⟩
  have unchallenged : ∀ a ∈ (s.under .forbid).answers rs, "E010" ∉ a.1.codes := by decide +kernel
  exact ⟨(checked e).redefinition "x" checkRebinds, (passed e).redefinition "x" passRebinds,
    unchallenged, run rs unchallenged⟩

end Session

end ExprLang
