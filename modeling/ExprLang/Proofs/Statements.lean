/-
# Statements, one by one

A session is given its statements one at a time or as a program.  Two things are said about that.

* **A program is its statements.**  Checking a list gives what a call for each statement gives, on
  one session and in order, the failed ones included (`Session.checkProgram_eq_checkEach`).  What a
  pass carries from statement to statement besides the bindings has no influence on later ones: this
  is `Session.onePass_eq_checkProgram`.
* **A statement is all or nothing.**  It is rejected and the session is as before, or it is accepted
  and binds at most the one name that it defines.  When code is generated, the name is bound
  already, so a failure of the generator would come too late; but a definition has no code that
  could fail (`generate_definition`).
-/
import ExprLang.Proofs.Recovery

namespace ExprLang

namespace Session

/-! ## 1. A program is its statements -/

/-- Checks each statement by a call of its own, on the session that the call before it left. -/
def checkEach : Session → List Expr → List (Except (List TypeError) Typed) × Session
  | s, [] => ([], s)
  | s, e :: es =>
    let (outcome, s) := s.check e
    let (outcomes, s) := s.checkEach es
    (outcome :: outcomes, s)

/-- The outcomes of statements as one: all trees if every statement is accepted, else all errors. -/
def collect (outcomes : List (Except (List TypeError) Typed)) : Checked :=
  if outcomes.all Except.isOk then .ok (outcomes.filterMap Except.toOption)
  else .error (outcomes.flatMap errorsOf)

section Collect

variable (outcomes : List (Except (List TypeError) Typed))

theorem flatMap_errorsOf_eq_nil (h : outcomes.all Except.isOk = true) :
    outcomes.flatMap errorsOf = [] := by
  rw [List.flatMap_eq_nil_iff]
  intro o ho
  have hok := List.all_eq_true.mp h o ho
  cases o with
  | ok t => rfl
  | error errs => simp [Except.isOk, Except.toBool] at hok

theorem collect_cons_ok (t : Typed) :
    collect (.ok t :: outcomes) = .cons (.ok t) (collect outcomes) := by
  have first : (Except.ok t :: outcomes).all Except.isOk = outcomes.all Except.isOk := rfl
  rw [collect, collect, first]
  cases outcomes.all Except.isOk with
  | true => rfl
  | false => rfl

theorem collect_cons_error (err : TypeError) :
    collect (.error [err] :: outcomes) = .cons (.error err) (collect outcomes) := by
  have first : collect (.error [err] :: outcomes) = .error (err :: outcomes.flatMap errorsOf) := rfl
  rw [first, collect]
  cases h : outcomes.all Except.isOk with
  | true =>
    rw [flatMap_errorsOf_eq_nil outcomes h]
    rfl
  | false => rfl

end Collect

theorem checkProgram_cons_ok {s s' : Session} {e : Expr} {t : Typed} (h : s.check e = (.ok t, s'))
    (es : List Expr) :
    s.checkProgram (e :: es) = (.cons (.ok t) (s'.checkProgram es).1, (s'.checkProgram es).2) := by
  obtain ⟨Γ, hc, rfl⟩ := check_ok.mp h
  rw [checkProgram, checkAll, hc]
  rfl

theorem checkProgram_cons_error {s s' : Session} {e : Expr} {errs : List TypeError}
    (h : s.check e = (.error errs, s')) (es : List Expr) :
    ∃ err, errs = [err] ∧ s.checkProgram (e :: es) =
      (.cons (.error err) (s'.checkProgram es).1, (s'.checkProgram es).2) := by
  obtain ⟨err, hc, rfl, rfl⟩ := check_error.mp h
  refine ⟨err, rfl, ?_⟩
  rw [checkProgram, checkAll, hc]
  rfl

/-- **Checking a program is checking its statements**, each on the session that the ones before it
left. -/
theorem checkProgram_eq_checkEach (s : Session) (es : List Expr) :
    s.checkProgram es = (collect (s.checkEach es).1, (s.checkEach es).2) := by
  induction es generalizing s with
  | nil => rfl
  | cons e es ih =>
    rw [checkEach]
    cases h : s.check e with
    | mk outcome s' =>
      cases outcome with
      | ok t => rw [checkProgram_cons_ok h, ih s', collect_cons_ok]
      | error errs =>
        obtain ⟨err, rfl, hcons⟩ := checkProgram_cons_error h es
        rw [hcons, ih s', collect_cons_error]

/-- Every rejected statement has one error. -/
theorem eq_singleton_of_mem_checkEach {s : Session} {es : List Expr} {errs : List TypeError}
    (h : .error errs ∈ (s.checkEach es).1) : ∃ err, errs = [err] := by
  induction es generalizing s with
  | nil => exact absurd h List.not_mem_nil
  | cons e es ih =>
    rcases List.mem_cons.mp h with h | h
    · obtain ⟨err, -, herrs, -⟩ := check_error.mp (Prod.ext h.symm rfl)
      exact ⟨err, herrs⟩
    · exact ih h

/-- Where every rejected statement has one error, there are as many errors as rejected
statements. -/
theorem length_flatMap_errorsOf {outcomes : List (Except (List TypeError) Typed)}
    (h : ∀ errs, .error errs ∈ outcomes → ∃ err, errs = [err]) :
    (outcomes.flatMap errorsOf).length = outcomes.countP (!·.isOk) := by
  induction outcomes with
  | nil => rfl
  | cons o outcomes ih =>
    rw [List.flatMap_cons, List.length_append, List.countP_cons,
      ih fun errs herrs => h errs (List.mem_cons_of_mem o herrs), Nat.add_comm]
    cases o with
    | ok t => rfl
    | error errs =>
      obtain ⟨err, rfl⟩ := h errs List.mem_cons_self
      rfl

theorem collect_eq_error {outcomes : List (Except (List TypeError) Typed)} {errs : List TypeError}
    (h : collect outcomes = .error errs) :
    errs = outcomes.flatMap errorsOf ∧ 0 < outcomes.countP (!·.isOk) := by
  rw [collect] at h
  split at h
  · simp at h
  · next rejected =>
    refine ⟨(Except.error.inj h).symm, List.countP_pos_iff.mpr ?_⟩
    simpa using rejected

/-- **A program is checked as its statements are, one by one.**  It has the outcome of theirs
together and leaves the session that they leave; if it is rejected there is one error for every
statement that is, so at least one.  A single pass over the whole program, which recovers after each
failure, says the same. -/
theorem program_checks_as_statements (s : Session) (es : List Expr) :
    s.checkProgram es = (collect (s.checkEach es).1, (s.checkEach es).2) ∧
      (∀ errs, (s.checkProgram es).1 = .error errs →
        errs ≠ [] ∧ errs.length = (s.checkEach es).1.countP (!·.isOk)) ∧
      (∀ errs, .error errs ∈ (s.checkEach es).1 → ∃ err, errs = [err]) ∧
      (s.bindings.Sound → s.onePass es = s.checkProgram es) := by
  have single : ∀ errs, .error errs ∈ (s.checkEach es).1 → ∃ err, errs = [err] :=
    fun _ => eq_singleton_of_mem_checkEach
  refine ⟨checkProgram_eq_checkEach s es, ?_, single, fun hs => onePass_eq_checkProgram hs es⟩
  intro errs h
  rw [checkProgram_eq_checkEach] at h
  obtain ⟨rfl, some_rejected⟩ := collect_eq_error h
  have count := length_flatMap_errorsOf single
  refine ⟨?_, count⟩
  rw [← List.length_pos_iff, count]
  exact some_rejected

/-- `let x = 1`, `let x = true`, `u`, `x + 1`: the second statement is rejected since `x` is bound,
the third since `u` is not, and neither failure hides or causes another. -/
theorem program_checks_as_statements_mixed :
    let s := Session.new none .forbid
    let one := Expr.literal ⟨8, 9⟩ (.number ⟨1⟩)
    let es := [.define ⟨0, 9⟩ "x" none one,
      .define ⟨11, 23⟩ "x" none (.literal ⟨19, 23⟩ (.bool true)),
      .ident ⟨25, 26⟩ "u", .binary ⟨28, 33⟩ .add (.ident ⟨28, 29⟩ "x") one]
    let errs : List TypeError := [⟨⟨11, 23⟩, .redefinition "x"⟩, ⟨⟨25, 26⟩, .undefined "u"⟩]
    s.bindings.Sound ∧ (s.checkProgram es).1 = .error errs ∧
      errs.length = (s.checkEach es).1.countP (!·.isOk) ∧ s.onePass es = s.checkProgram es := by
  intro s one es errs
  have rejected : (s.checkProgram es).1 = .error errs := rfl
  obtain ⟨-, count, -, pass⟩ := program_checks_as_statements s es
  exact ⟨Bindings.sound_empty, rejected, (count errs rejected).2, pass Bindings.sound_empty⟩

/-! ## 2. A statement is all or nothing -/

/-- `s'` is `s` with `x` bound to `v`, at its type. -/
structure Binds (s : Session) (x : String) (v : Value) (s' : Session) : Prop where
  bound : s'.bindings.get? x = some ⟨v.ty, v⟩
  others : ∀ y, y ≠ x → s'.bindings.get? y = s.bindings.get? y
  shadowing : s'.shadowing = s.shadowing
  lines : s'.lines = s.lines

/-- What an accepted statement does to the session: a definition binds its name to its literal, any
other statement does nothing. -/
inductive Accepts (s : Session) : Expr → Session → Prop where
  | expression {e : Expr} : e.isDefinition = false → Accepts s e s
  | definition {sp vs : Span} {x : String} {declared : Option Ty} {v : Value} {s' : Session} :
      s.Binds x v s' → Accepts s (.define sp x declared (.literal vs v)) s'

theorem Accepts.binds {s s' : Session} {sp vs : Span} {x : String} {declared : Option Ty}
    {v : Value} (h : s.Accepts (.define sp x declared (.literal vs v)) s') : s.Binds x v s' := by
  cases h with
  | expression he => simp [Expr.isDefinition] at he
  | definition binds => exact binds

/-- The outcome of a statement, and the session after it: the statement is accepted, or the session
is as before. -/
def AllOrNothing {ε α : Type} (s : Session) (e : Expr) : Except ε α × Session → Prop
  | (.ok _, s') => s.Accepts e s'
  | (.error _, s') => s' = s

theorem binds_insert (s : Session) (x : String) (v : Value) :
    s.Binds x v { s with bindings := s.bindings.insert x ⟨v.ty, v⟩ } where
  bound := by rw [Bindings.get?_insert, if_pos rfl]
  others y hy := by rw [Bindings.get?_insert, if_neg hy]
  shadowing := rfl
  lines := rfl

/-- A definition writes no code, so nothing can go wrong with it. -/
theorem generate_definition (s : Session) (sp : Span) (x : String) (value : Typed) :
    s.generate (.define ⟨.unit, sp⟩ x value) = .ok (.unit, Emitter.start.code) := rfl

theorem accepts_of_check {s s' : Session} {e : Expr} {t : Typed} (h : s.check e = (.ok t, s')) :
    s.Accepts e s' := by
  obtain ⟨Γ, hc, rfl⟩ := check_ok.mp h
  rcases check_cases hc with ⟨he, -, rfl⟩ | ⟨sp, x, declared, vs, v, rfl, -, rfl⟩
  · exact .expression he
  · exact .definition (binds_insert s x v)

/-- **An accepted statement without code has bound nothing.** -/
theorem eq_of_generate_error {s s' : Session} {e : Expr} {t : Typed} {f : CodeFailure}
    (h : s.check e = (.ok t, s')) (hg : s'.generate t = .error f) : s' = s := by
  obtain ⟨Γ, hc, rfl⟩ := check_ok.mp h
  rcases check_cases hc with ⟨-, -, rfl⟩ | ⟨sp, x, declared, vs, v, -, rfl, -⟩
  · rfl
  · rw [generate_definition] at hg
    exact absurd hg (by simp)

theorem allOrNothing_check (s : Session) (e : Expr) : s.AllOrNothing e (s.check e) := by
  cases h : s.check e with
  | mk outcome s' =>
    cases outcome with
    | ok t => exact accepts_of_check h
    | error errs =>
      obtain ⟨_, -, -, rfl⟩ := check_error.mp h
      rfl

theorem allOrNothing_compile (s : Session) (e : Expr) : s.AllOrNothing e (s.compile e) := by
  rw [compile]
  have checked := allOrNothing_check s e
  cases h : s.check e with
  | mk outcome s' =>
    rw [h] at checked
    cases outcome with
    | error errs => exact checked
    | ok t =>
      simp only
      cases hg : s'.generate t with
      | ok code => exact checked
      | error f => exact eq_of_generate_error h hg

theorem AllOrNothing.map {ε α β : Type} {s s' : Session} {e : Expr} {outcome : Except ε α}
    (h : s.AllOrNothing e (outcome, s')) (f : α → β) : s.AllOrNothing e (outcome.map f, s') := by
  cases outcome with
  | ok a => exact h
  | error err => exact h

/-- **A statement is all or nothing**, when it is checked and when it is compiled.  The same holds
of a pass that binds names while it is still inside the statement: it never has one to take back. -/
theorem statements_are_all_or_nothing {s : Session} (hs : s.Reachable) (e : Expr) :
    s.AllOrNothing e (s.check e) ∧ s.AllOrNothing e (s.compile e) ∧
      s.AllOrNothing e (s.onePass [e]) := by
  refine ⟨allOrNothing_check s e, allOrNothing_compile s e, ?_⟩
  rw [onePass_eq_checkProgram hs.sound, checkProgram_singleton]
  exact (allOrNothing_check s e).map ([·])

/-- With `x` bound, `x + let y = 1` is rejected and binds nothing; `let y = 1` then binds `y` and
keeps `x`. -/
theorem statements_are_all_or_nothing_nested :
    let s := (Session.new none .forbid).run [.define "x" (.number ⟨0⟩)]
    let define := Expr.define ⟨4, 13⟩ "y" none (.literal ⟨12, 13⟩ (.number ⟨1⟩))
    let nested := Expr.binary ⟨0, 13⟩ .add (.ident ⟨0, 1⟩ "x") define
    s.Reachable ∧ (s.compile nested).1.isOk = false ∧ (s.compile nested).2 = s ∧
      (s.compile define).1.isOk = true ∧ s.Binds "y" (.number ⟨1⟩) (s.compile define).2 := by
  intro s define nested
  have reachable : s.Reachable := ⟨none, .forbid, [.define "x" (.number ⟨0⟩)], rfl⟩
  obtain ⟨-, rejected, -⟩ := statements_are_all_or_nothing reachable nested
  obtain ⟨-, accepted, -⟩ := statements_are_all_or_nothing reachable define
  exact ⟨reachable, rfl, rejected, rfl, Accepts.binds accepted⟩

end Session

end ExprLang
