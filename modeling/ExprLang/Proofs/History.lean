/-
# What binds a name

A binding is never changed, but it can be replaced, and this module says by what.  An **event**
gives a value to a name.  There are two kinds: the caller does it, or a definition that is a whole
statement and raises no error.  `Session.history` lists the events of a run in order.

* **The latest event for a name decides** (`Session.get?_run`); without one the name keeps what it
  had.  So no name is ever unbound.
* Where a bound name may not be bound again, **only the caller's events concern it**
  (`Session.latest_history`): no statement that defines it is accepted.

A pass that goes on after a mistake asks whether a name is bound in places where it reports nothing
any more, and such a question has no consequence.  Still nothing is replaced there
(`analyze_keepsBound`): what suppresses the report suppresses the binding too.
-/
import ExprLang.Proofs.Statements

namespace ExprLang

/-! ## 1. Events -/

/-- A name and the value that it gets. -/
abbrev Event := String × Value

/-- The value of the latest event for a name. -/
def latest (x : String) (events : List Event) : Option Value := events.reverse.lookup x

/-- The binding of a name after events: that of the latest event for it, or the one it had. -/
def Bindings.getAfter (Γ : Bindings) (events : List Event) (x : String) : Option Binding :=
  ((latest x events).map fun v => ⟨v.ty, v⟩).or (Γ.get? x)

/-- What a definition by a literal would give to its name. -/
def Expr.event? : Expr → Option Event
  | .define _ x _ (.literal _ v) => some (x, v)
  | _ => none

namespace Session

/-- The events of statements: those of the definitions among them that raise no error, each on the
session that the ones before it left. -/
def events : Session → List Expr → List Event
  | _, [] => []
  | s, e :: es =>
    (if (s.check e).1.isOk then e.event?.toList else []) ++ (s.check e).2.events es

def callEvents (s : Session) : Call → List Event
  | .define x v => [(x, v)]
  | .check e | .compile e => s.events [e]
  | .checkProgram es | .compileProgram es => s.events es

/-- The events of a sequence of calls. -/
def history : Session → List Call → List Event
  | _, [] => []
  | s, call :: calls => s.callEvents call ++ (s.after call).history calls

/-- The events of a sequence of calls that are due to the caller. -/
def given : List Call → List Event
  | [] => []
  | .define x v :: calls => (x, v) :: given calls
  | _ :: calls => given calls

end Session

section Latest

variable {x y : String} {v : Value} {a b : List Event} {Γ : Bindings}

theorem latest_append (x : String) (a b : List Event) :
    latest x (a ++ b) = (latest x b).or (latest x a) := by
  rw [latest, List.reverse_append, List.lookup_append, latest, latest]

theorem latest_singleton : latest x [(y, v)] = if x = y then some v else none := by
  by_cases h : x = y
  · simp [latest, h]
  · have other : (x == y) = false := beq_eq_false_iff_ne.mpr h
    simp [latest, List.lookup_cons, other, h]

theorem getAfter_append (Γ : Bindings) (a b : List Event) (x : String) :
    Γ.getAfter (a ++ b) x = ((latest x b).map fun v => ⟨v.ty, v⟩).or (Γ.getAfter a x) := by
  rw [Bindings.getAfter, latest_append, Bindings.getAfter]
  cases latest x b with
  | none => rfl
  | some v => rfl

/-- An event binds the one name and no other. -/
theorem getAfter_singleton : Γ.getAfter [(y, v)] x = (Γ.insert y ⟨v.ty, v⟩).get? x := by
  rw [Bindings.getAfter, latest_singleton, Bindings.get?_insert]
  by_cases h : x = y
  · rw [if_pos h, if_pos h]
    rfl
  · rw [if_neg h, if_neg h]
    rfl

theorem getAfter_of_latest (h : latest x a = none) : Γ.getAfter a x = Γ.get? x := by
  rw [Bindings.getAfter, h]
  rfl

/-- A bound name stays bound. -/
theorem exists_getAfter {b : Binding} (h : Γ.get? x = some b) : ∃ b', Γ.getAfter a x = some b' := by
  rw [Bindings.getAfter, h]
  cases latest x a with
  | none => exact ⟨_, rfl⟩
  | some v => exact ⟨_, rfl⟩

end Latest

/-! ## 2. The latest event decides -/

namespace Session

variable {s : Session} {x : String}

/-- The events of one statement. -/
theorem events_singleton (s : Session) (e : Expr) :
    s.events [e] = if (s.check e).1.isOk then e.event?.toList else [] := by
  rw [events, events, List.append_nil]

theorem events_cons (s : Session) (e : Expr) (es : List Expr) :
    s.events (e :: es) = s.events [e] ++ (s.check e).2.events es := by
  rw [events_singleton, events]

/-- **What a statement does to a name is its event.** -/
theorem get?_check (s : Session) (e : Expr) (x : String) :
    (s.check e).2.bindings.get? x = s.bindings.getAfter (s.events [e]) x := by
  rw [events_singleton]
  cases h : s.check e with
  | mk outcome s' =>
    cases outcome with
    | error errs =>
      obtain ⟨_, -, -, rfl⟩ := check_error.mp h
      rfl
    | ok t =>
      obtain ⟨Γ, hc, rfl⟩ := check_ok.mp h
      rcases check_cases hc with ⟨he, -, rfl⟩ | ⟨sp, y, declared, vs, v, rfl, -, rfl⟩
      · have silent : e.event? = none := by
          cases e with
          | define _ _ _ _ => simp [Expr.isDefinition] at he
          | _ => rfl
        rw [silent]
        rfl
      · exact getAfter_singleton.symm

theorem get?_checkProgram (s : Session) (es : List Expr) (x : String) :
    (s.checkProgram es).2.bindings.get? x = s.bindings.getAfter (s.events es) x := by
  rw [checkProgram_eq_checkEach]
  induction es generalizing s with
  | nil => rfl
  | cons e es ih =>
    have rest : (s.checkEach (e :: es)).2 = ((s.check e).2.checkEach es).2 := rfl
    rw [rest, ih, events_cons, getAfter_append, ← get?_check]
    rfl

/-- **A call is an event of the caller, or it checks statements.** -/
theorem after_cases (s : Session) (call : Call) :
    (∃ y v, call = .define y v) ∨
      ∃ es, s.after call = (s.checkProgram es).2 ∧ s.callEvents call = s.events es ∧
        ∀ calls, given (call :: calls) = given calls := by
  have single : ∀ e, (s.check e).2 = (s.checkProgram [e]).2 := fun e => by
    rw [checkProgram_singleton]
  cases call with
  | define y v => exact Or.inl ⟨y, v, rfl⟩
  | check e => exact Or.inr ⟨[e], single e, rfl, fun _ => rfl⟩
  | checkProgram es => exact Or.inr ⟨es, rfl, rfl, fun _ => rfl⟩
  | compile e =>
    refine Or.inr ⟨[e], ?_, rfl, fun _ => rfl⟩
    rw [after, compile_eq_compileProgram, compileProgram_snd]
  | compileProgram es => exact Or.inr ⟨es, compileProgram_snd s es, rfl, fun _ => rfl⟩

theorem get?_after (s : Session) (call : Call) (x : String) :
    (s.after call).bindings.get? x = s.bindings.getAfter (s.callEvents call) x := by
  rcases s.after_cases call with ⟨y, v, rfl⟩ | ⟨es, hafter, hevents, -⟩
  · exact getAfter_singleton.symm
  · rw [hafter, hevents]
    exact get?_checkProgram s es x

/-- **After a run a name is bound as the latest event for it says.** -/
theorem get?_run (s : Session) (calls : List Call) (x : String) :
    (s.run calls).bindings.get? x = s.bindings.getAfter (s.history calls) x := by
  induction calls generalizing s with
  | nil => rfl
  | cons call calls ih =>
    have rest : s.run (call :: calls) = (s.after call).run calls := rfl
    rw [rest, ih, history, getAfter_append, ← get?_after]
    rfl

/-- A pass that goes on after mistakes does to a name what the checker does. -/
theorem get?_onePass {s : Session} (h : s.bindings.Sound) (es : List Expr) (x : String) :
    (s.onePass es).2.bindings.get? x = s.bindings.getAfter (s.events es) x := by
  rw [onePass_eq_checkProgram h, get?_checkProgram]

/-! ## 3. Names that may not be bound again -/

theorem shadowing_check (s : Session) (e : Expr) : (s.check e).2.shadowing = s.shadowing := by
  rw [check]
  split
  · rfl
  · rfl

theorem shadowing_after (s : Session) (call : Call) : (s.after call).shadowing = s.shadowing := by
  rcases s.after_cases call with ⟨y, v, rfl⟩ | ⟨es, hafter, -, -⟩
  · rfl
  · rw [hafter]
    rfl

/-- **No statement has an event for a bound name**, if it may not be bound again. -/
theorem latest_statement (hs : s.shadowing = .forbid) {b : Binding}
    (hb : s.bindings.get? x = some b) (e : Expr) : latest x (s.events [e]) = none := by
  rw [events_singleton]
  cases h : s.check e with
  | mk outcome s' =>
    cases outcome with
    | error errs => rfl
    | ok t =>
      obtain ⟨Γ, hc, -⟩ := check_ok.mp h
      rcases check_cases hc with ⟨he, -, -⟩ | ⟨sp, y, declared, vs, v, rfl, -, -⟩
      · cases e with
        | define _ _ _ _ => simp [Expr.isDefinition] at he
        | _ => rfl
      · obtain ⟨_, _, -, -, free, -, -⟩ := check_define_ok.mp hc
        have hxy : x ≠ y := by
          rintro rfl
          rcases free with allowed | unbound
          · simp [hs] at allowed
          · simp [hb] at unbound
        show latest x [(y, v)] = none
        rw [latest_singleton, if_neg hxy]

theorem latest_events (hs : s.shadowing = .forbid) {b : Binding} (hb : s.bindings.get? x = some b)
    (es : List Expr) : latest x (s.events es) = none := by
  induction es generalizing s with
  | nil => rfl
  | cons e es ih =>
    have first := latest_statement hs hb e
    have kept : (s.check e).2.bindings.get? x = some b := by
      rw [get?_check, getAfter_of_latest first, hb]
    rw [events_cons, latest_append, first, ih ((shadowing_check s e).trans hs) kept]
    rfl

/-- **Only the caller's events concern a bound name**, if it may not be bound again. -/
theorem latest_history (hs : s.shadowing = .forbid) {b : Binding} (hb : s.bindings.get? x = some b)
    (calls : List Call) : latest x (s.history calls) = latest x (given calls) := by
  induction calls generalizing s b with
  | nil => rfl
  | cons call calls ih =>
    obtain ⟨b', hb'⟩ : ∃ b', (s.after call).bindings.get? x = some b' := by
      rw [get?_after]
      exact exists_getAfter hb
    have rest := ih ((shadowing_after s call).trans hs) hb'
    rw [history, latest_append, rest]
    rcases s.after_cases call with ⟨y, v, rfl⟩ | ⟨es, -, hevents, hgiven⟩
    · exact (latest_append x [(y, v)] (given calls)).symm
    · rw [hevents, latest_events hs hb, Option.or_none, hgiven]

end Session

/-! ## 4. A pass that goes on -/

/-- `KeepsBound m`: from whatever state, `m` leaves every name that is bound as it is. -/
def KeepsBound {α : Type} (m : StateM Pass α) : Prop :=
  ∀ (p : Pass) (x : String) (b : Binding), p.bindings.get? x = some b →
    (m.run p).2.bindings.get? x = some b

section KeepsBound

variable {α β : Type}

theorem KeepsBound.of_eq {m : StateM Pass α} (h : ∀ p, (m.run p).2.bindings = p.bindings) :
    KeepsBound m := by
  intro p x b hb
  rw [h p, hb]

theorem KeepsBound.pure (a : α) : KeepsBound (pure a) := .of_eq fun _ => rfl

theorem KeepsBound.get : KeepsBound get := .of_eq fun _ => rfl

theorem KeepsBound.bind {m : StateM Pass α} {f : α → StateM Pass β} (hm : KeepsBound m)
    (hf : ∀ a, KeepsBound (f a)) : KeepsBound (m >>= f) := by
  intro p x b hb
  rw [run_bind_eq]
  exact hf _ _ x b (hm p x b hb)

theorem KeepsBound.inside {m : StateM Pass α} (hm : KeepsBound m) : KeepsBound (inside m) := by
  intro p x b hb
  rw [run_inside]
  exact hm p.enter x b hb

theorem bindings_report (err : TypeError) (p : Pass) :
    ((report err).run p).2.bindings = p.bindings := by
  rw [run_report]
  split
  · rfl
  · rfl

theorem KeepsBound.report (err : TypeError) : KeepsBound (report err) :=
  .of_eq (bindings_report err)

theorem bindings_reportIf (c : Bool) (err : TypeError) (p : Pass) :
    ((reportIf c err).run p).2.bindings = p.bindings := by
  cases c with
  | true => exact bindings_report err p
  | false => rfl

/-- After a report the statement has had one, whether this one was written down or not. -/
theorem quiet_reportIf {c : Bool} (hc : c = true) (err : TypeError) (p : Pass) :
    ((reportIf c err).run p).2.quiet = true := by
  subst hc
  show ((ExprLang.report err).run p).2.quiet = true
  rw [run_report]
  split
  · assumption
  · rfl

theorem KeepsBound.node (x : Except TypeError Ty) (mk : Ty → Typed) :
    KeepsBound (settle x >>= fun ty => Pure.pure (mk ty)) := by
  cases x with
  | ok ty => exact (KeepsBound.pure ty).bind fun _ => .pure _
  | error err => exact ((KeepsBound.report err).bind fun _ => .pure _).bind fun _ => .pure _

theorem KeepsBound.demand (x : Except TypeError Unit) : KeepsBound (demand x) := by
  cases x with
  | ok u => exact .pure ()
  | error err => exact .report err

end KeepsBound

/-- A name that is free, or a pass that is quiet: in both cases a definition replaces nothing. -/
theorem install_keepsBound {s : Span} {x y : String} {declared : Option Ty} {t : Typed} {p : Pass}
    {b : Binding} (h : p.quiet = true ∨ p.bindings.get? y = none)
    (hb : p.bindings.get? x = some b) :
    ((install s y declared t).run p).2.bindings.get? x = some b := by
  simp only [install, run_modifyGet]
  cases t.literal? with
  | none => exact hb
  | some v =>
    cases hq : p.quiet with
    | true => exact hb
    | false =>
      have hxy : x ≠ y := by
        rintro rfl
        rcases h with h | h
        · simp [hq] at h
        · simp [hb] at h
      show (p.bindings.insert y _).get? x = some b
      rw [Bindings.get?_insert, if_neg hxy, hb]

/-- **The question whether the name is bound is asked before anything is bound.**  If it is, the
pass is quiet afterwards, also where the report itself was suppressed. -/
theorem settleBinding_keepsBound (s : Span) (y : String) (declared : Option Ty) (t : Typed) :
    KeepsBound (settleBinding .forbid s y declared t) := by
  refine (KeepsBound.of_eq (bindings_reportIf _ _)).bind fun _ => ?_
  intro p x b hb
  let asked := ((reportIf (Shadowing.forbid = .forbid ∧ p.bindings.contains y)
    ⟨s, .redefinition y⟩).run p).2
  have kept : asked.bindings = p.bindings := bindings_reportIf _ _ p
  show ((install s y declared t).run asked).2.bindings.get? x = some b
  refine install_keepsBound ?_ (by rw [kept, hb])
  cases hy : p.bindings.get? y with
  | none => exact Or.inr (by rw [kept, hy])
  | some c => exact Or.inl (quiet_reportIf (by simp [Bindings.contains, hy]) _ p)

/-- **A pass replaces no binding** where none may be replaced, whatever the tree and from whatever
state: inside a statement with a report or before it, deep in a tree or at its top. -/
theorem analyze_keepsBound (e : Expr) : KeepsBound (e.analyze .forbid) := by
  induction e with
  | literal s v => exact (KeepsBound.pure _).inside
  | ident s x =>
    refine (KeepsBound.get.bind fun p => ?_).inside
    cases p.bindings.get? x with
    | some b => exact .pure _
    | none => exact (KeepsBound.report _).bind fun _ => .pure _
  | unary s op e ih => exact (ih.bind fun t => .node _ _).inside
  | binary s op l r ihl ihr => exact (ihl.bind fun tl => ihr.bind fun tr => .node _ _).inside
  | cond s c a b ihc iha ihb =>
    exact (ihc.bind fun tc => iha.bind fun ta => ihb.bind fun tb => .node _ _).inside
  | lambda s params body => exact ((KeepsBound.report _).bind fun _ => .pure _).inside
  | define s x declared e ih =>
    exact (KeepsBound.get.bind fun p => ih.bind fun t => (KeepsBound.demand _).bind fun _ =>
      (KeepsBound.of_eq (bindings_reportIf _ _)).bind fun _ =>
        settleBinding_keepsBound s x declared t).inside

theorem analyzeAll_keepsBound : ∀ es : List Expr, KeepsBound (analyzeAll .forbid es)
  | [] => .pure []
  | e :: es => (KeepsBound.of_eq fun _ => rfl).bind fun _ => (analyze_keepsBound e).bind fun _ =>
      (analyzeAll_keepsBound es).bind fun _ => .pure _

/-! ## 5. Runs -/

namespace Session

/-- **Bindings change by events only.**  After a run a name is bound as the latest event for it
says, and a name that is bound stays bound.  The same holds of a pass that goes on after mistakes,
under either policy, if names are bound at the types of their values.  Where a bound name may not be
bound again, the caller's events are all that counts: no other call changes its binding, whatever
the call answers, and no pass that goes on after mistakes does, whatever the types of the
bindings. -/
theorem bindings_change_by_events_only (s : Session) (x : String) :
    (∀ calls, (s.run calls).bindings.get? x = s.bindings.getAfter (s.history calls) x) ∧
    (s.bindings.Sound → ∀ es,
      (s.onePass es).2.bindings.get? x = s.bindings.getAfter (s.events es) x) ∧
    ∀ b, s.bindings.get? x = some b →
      (∀ calls, ∃ b', (s.run calls).bindings.get? x = some b') ∧
      (s.bindings.Sound → ∀ es, ∃ b', (s.onePass es).2.bindings.get? x = some b') ∧
      (s.shadowing = .forbid →
        (∀ calls, (s.run calls).bindings.get? x = s.bindings.getAfter (given calls) x) ∧
        (∀ call, (∀ v, call ≠ .define x v) → (s.after call).bindings.get? x = some b) ∧
        ∀ es, (s.onePass es).2.bindings.get? x = some b) := by
  refine ⟨fun calls => get?_run s calls x, fun sound es => get?_onePass sound es x, fun b hb =>
    ⟨fun calls => ?_, fun sound es => ?_, fun hs => ⟨fun calls => ?_, fun call other => ?_,
      fun es => ?_⟩⟩⟩
  · rw [get?_run]
    exact exists_getAfter hb
  · rw [get?_onePass sound]
    exact exists_getAfter hb
  · rw [get?_run, Bindings.getAfter, latest_history hs hb, Bindings.getAfter]
  · rw [get?_after, ← hb]
    refine getAfter_of_latest ?_
    rcases s.after_cases call with ⟨y, v, rfl⟩ | ⟨es, -, hevents, -⟩
    · have hxy : x ≠ y := fun h => other v (by rw [h])
      exact latest_singleton.trans (if_neg hxy)
    · rw [hevents]
      exact latest_events hs hb es
  · have kept := analyzeAll_keepsBound es (.start s.bindings) x b hb
    rw [onePass, hs]
    exact kept

/-- `let x = true`, `0 + let x = ()` and `let x: Number = ()` after the caller has bound `x` to
zero.  The second and the third are rejected; the first is accepted if names may be bound again. -/
theorem bindings_change_by_events_only_nested :
    let zero := Value.number ⟨0⟩
    let x (declared : Option Ty) (v : Value) := Expr.define .zero "x" declared (.literal .zero v)
    let es := [x none (.bool true), .binary .zero .add (.literal .zero zero) (x none .unit),
      x (some .number) .unit]
    let call := Call.compileProgram es
    let s (shadowing : Shadowing) := (new none shadowing).run [.define "x" zero]
    ((s .allow).run [call]).bindings.get? "x" = some ⟨.bool, .bool true⟩ ∧
      ((s .allow).onePass es).2.bindings.get? "x" = some ⟨.bool, .bool true⟩ ∧
      ((s .forbid).run [call, .define "x" (.str "")]).bindings.get? "x" = some ⟨.string, .str ""⟩ ∧
      ((s .forbid).after call).bindings.get? "x" = some ⟨.number, zero⟩ := by
  intro zero x es call s
  have sound : (s .allow).bindings.Sound :=
    Reachable.sound ⟨none, .allow, [.define "x" zero], rfl⟩
  obtain ⟨allowed, onePass, -⟩ := bindings_change_by_events_only (s .allow) "x"
  obtain ⟨-, -, forbidden⟩ := bindings_change_by_events_only (s .forbid) "x"
  obtain ⟨-, -, forbidden⟩ := forbidden ⟨.number, zero⟩ rfl
  obtain ⟨byCaller, byOthers, -⟩ := forbidden rfl
  exact ⟨(allowed [call]).trans rfl, (onePass sound es).trans rfl,
    (byCaller [call, .define "x" (.str "")]).trans rfl, byOthers call fun v h => Call.noConfusion h⟩

end Session

end ExprLang
