/-
# Root causes

A rejected statement gets one error, and this module says which: that of **the first node in the
order of evaluation whose own rule fails**.  `Expr.inOrder` is the order and `Breaks` is what it
means that the rule of a node fails, with the error that says so; neither mentions the checker.  All
nodes before the first failure are well typed, so the types that the error names are the types of
the operands, branches or values, and never the type of errors.

A definition has four rules and breaks more than one of them at times; `definitionFaults` lists what
it breaks, and the first one counts.
-/
import ExprLang.Proofs.Rules

namespace ExprLang

/-! ## 1. Order and failure -/

/-- The nodes of an expression in the order of evaluation: children before their parent and from
left to right.  The body of a function is no part of it. -/
def Expr.inOrder : Expr → List Expr
  | .literal s v => [.literal s v]
  | .ident s x => [.ident s x]
  | .unary s op e => e.inOrder ++ [.unary s op e]
  | .binary s op l r => l.inOrder ++ r.inOrder ++ [.binary s op l r]
  | .cond s c a b => c.inOrder ++ a.inOrder ++ b.inOrder ++ [.cond s c a b]
  | .lambda s params body => [.lambda s params body]
  | .define s x declared e => e.inOrder ++ [.define s x declared e]

/-- The rules that a definition breaks, in the order in which they count: the declared type, the
place (`whole` says that the definition is a whole statement), the value, the name. -/
def definitionFaults (shadowing : Shadowing) (Γ : Bindings) (whole : Bool) (s : Span) (x : String)
    (declared : Option Ty) (value : Expr) (inferred : Ty) : List TypeError :=
  (match declared with
    | some ty => if ty = inferred then [] else [⟨s, .declaration x ty inferred⟩]
    | none => []) ++
  (if whole then [] else [⟨s, .nested x⟩]) ++
  (if value.isLiteral then [] else [⟨value.span, .notLiteral x⟩]) ++
  (if shadowing = .forbid ∧ (Γ.get? x).isSome then [⟨s, .redefinition x⟩] else [])

/-- `Breaks shadowing Γ whole e err`: the children of the node `e` are well typed, its own rule
fails, and `err` says so.  A node that is a whole statement may be a definition. -/
inductive Breaks (shadowing : Shadowing) (Γ : Bindings) (whole : Bool) :
    Expr → TypeError → Prop where
  | undefined {s : Span} {x : String} : Γ.get? x = none →
      Breaks shadowing Γ whole (.ident s x) ⟨s, .undefined x⟩
  | neg {s : Span} {e : Expr} {ty : Ty} : HasType Γ e ty → ty ≠ .number →
      Breaks shadowing Γ whole (.unary s .neg e) ⟨s, .unaryOperand .neg .number ty⟩
  | not {s : Span} {e : Expr} {ty : Ty} : HasType Γ e ty → ty ≠ .bool →
      Breaks shadowing Γ whole (.unary s .not e) ⟨s, .unaryOperand .not .bool ty⟩
  | operands {s : Span} {op : BinaryOp} {l r : Expr} {left right : Ty} :
      op ∈ [BinaryOp.add, .sub, .mul, .div, .lt, .le, .gt, .ge] →
      HasType Γ l left → HasType Γ r right → ¬ (left = .number ∧ right = .number) →
      Breaks shadowing Γ whole (.binary s op l r) ⟨s, .binaryOperands op .number .number left right⟩
  | comparison {s : Span} {op : BinaryOp} {l r : Expr} {left right : Ty} : op ∈ [BinaryOp.eq, .ne] →
      HasType Γ l left → HasType Γ r right → left ≠ right →
      Breaks shadowing Γ whole (.binary s op l r) ⟨s, .notComparable op left right⟩
  | condition {s : Span} {c a b : Expr} {ty ta tb : Ty} :
      HasType Γ c ty → HasType Γ a ta → HasType Γ b tb → ty ≠ .bool →
      Breaks shadowing Γ whole (.cond s c a b) ⟨c.span, .condition ty⟩
  | branches {s : Span} {c a b : Expr} {ta tb : Ty} :
      HasType Γ c .bool → HasType Γ a ta → HasType Γ b tb → ta ≠ tb →
      Breaks shadowing Γ whole (.cond s c a b) ⟨s, .branches ta tb⟩
  | function {s : Span} {params : List String} {body : Expr} :
      Breaks shadowing Γ whole (.lambda s params body) ⟨s, .unsupported "Functions"⟩
  | definition {s : Span} {x : String} {declared : Option Ty} {e : Expr} {ty : Ty}
      {err : TypeError} : HasType Γ e ty →
      (definitionFaults shadowing Γ whole s x declared e ty).head? = some err →
      Breaks shadowing Γ whole (.define s x declared e) err

/-- Every node of a list is well typed. -/
def AllTyped (Γ : Bindings) (nodes : List Expr) : Prop := ∀ n ∈ nodes, ∃ ty, HasType Γ n ty

/-- `RootCause shadowing Γ e err`: in the order of evaluation all nodes of the statement `e` are
well typed up to one that breaks its rule, and `err` says so.  The last node is the statement
itself. -/
def RootCause (shadowing : Shadowing) (Γ : Bindings) (e : Expr) (err : TypeError) : Prop :=
  ∃ before node after, e.inOrder = before ++ node :: after ∧ AllTyped Γ before ∧
    Breaks shadowing Γ after.isEmpty node err

/-- The types that an error says it found. -/
def TypeError.Cause.found : TypeError.Cause → List Ty
  | .unaryOperand _ _ found => [found]
  | .binaryOperands _ _ _ left right => [left, right]
  | .notComparable _ left right => [left, right]
  | .condition found => [found]
  | .branches thenTy elseTy => [thenTy, elseTy]
  | .declaration _ _ inferred => [inferred]
  | .undefined _ | .unsupported _ | .notLiteral _ | .redefinition _ | .nested _ => []

/-! ## 2. A failure is told by its node -/

/-- A definition says one type that it found, that of its value. -/
theorem found_of_mem_definitionFaults {shadowing : Shadowing} {Γ : Bindings} {whole : Bool}
    {s : Span} {x : String} {declared : Option Ty} {value : Expr} {inferred ty : Ty}
    {err : TypeError}
    (h : err ∈ definitionFaults shadowing Γ whole s x declared value inferred)
    (hty : ty ∈ err.cause.found) : ty = inferred := by
  simp only [definitionFaults, List.mem_append] at h
  rcases h with ((h | h) | h) | h
  · cases declared with
    | none => exact absurd h List.not_mem_nil
    | some d =>
      by_cases hd : d = inferred
      · simp [hd] at h
      · simp only [if_neg hd, List.mem_singleton] at h
        subst h
        exact List.mem_singleton.mp hty
  · cases whole with
    | true => exact absurd h List.not_mem_nil
    | false =>
      rw [List.mem_singleton.mp h] at hty
      exact absurd hty List.not_mem_nil
  · cases hv : value.isLiteral with
    | true => simp [hv] at h
    | false =>
      simp only [hv, Bool.false_eq_true, if_false, List.mem_singleton] at h
      subst h
      exact absurd hty List.not_mem_nil
  · by_cases hb : shadowing = .forbid ∧ (Γ.get? x).isSome
    · simp only [if_pos hb, List.mem_singleton] at h
      subst h
      exact absurd hty List.not_mem_nil
    · simp only [if_neg hb] at h
      exact absurd h List.not_mem_nil

section Breaks

variable {shadowing : Shadowing} {Γ : Bindings} {whole : Bool} {n : Expr} {err err' : TypeError}

/-- No rule both holds and fails. -/
theorem Breaks.not_hasType (h : Breaks shadowing Γ whole n err) {ty : Ty} : ¬ HasType Γ n ty := by
  intro ht
  cases h with
  | undefined hx =>
    cases ht with
    | ident hb => simp [hx] at hb
  | neg he hne => exact hne (he.unique (hasType_unary_iff.mp ht).1)
  | not he hne => exact hne (he.unique (hasType_unary_iff.mp ht).1)
  | operands hop hl hr hne =>
    obtain ⟨left, right, hl', hr', happly⟩ := hasType_binary_iff.mp ht
    obtain rfl := hl.unique hl'
    obtain rfl := hr.unique hr'
    rcases apply_eq_ok_iff.mp happly with ⟨-, hleft, hright, -⟩ | ⟨-, hleft, hright, -⟩ |
      ⟨hop', -, -⟩
    · exact hne ⟨hleft, hright⟩
    · exact hne ⟨hleft, hright⟩
    · rcases List.mem_cons.mp hop' with rfl | hop'
      · simp at hop
      · rw [List.mem_singleton.mp hop'] at hop
        simp at hop
  | comparison hop hl hr hne =>
    obtain ⟨left, right, hl', hr', happly⟩ := hasType_binary_iff.mp ht
    obtain rfl := hl.unique hl'
    obtain rfl := hr.unique hr'
    rcases apply_eq_ok_iff.mp happly with ⟨-, hleft, hright, -⟩ | ⟨-, hleft, hright, -⟩ |
      ⟨-, heq, -⟩
    · exact hne (hleft.trans hright.symm)
    · exact hne (hleft.trans hright.symm)
    · exact hne heq
  | condition hc _ _ hne =>
    cases ht with
    | cond hc' _ _ => exact hne (hc.unique hc')
  | branches _ ha hb hne =>
    cases ht with
    | cond _ ha' hb' => exact hne ((ha.unique ha').trans (hb'.unique hb))
  | function => cases ht
  | definition _ _ => cases ht

/-- **A node that breaks its rule has one error.** -/
theorem Breaks.unique (h : Breaks shadowing Γ whole n err) (h' : Breaks shadowing Γ whole n err') :
    err = err' := by
  cases h with
  | undefined _ => cases h' with | undefined _ => rfl
  | neg he _ => cases h' with | neg he' _ => rw [he.unique he']
  | not he _ => cases h' with | not he' _ => rw [he.unique he']
  | operands hop hl hr _ =>
    cases h' with
    | operands _ hl' hr' _ => rw [hl.unique hl', hr.unique hr']
    | comparison hop' _ _ _ =>
      simp only [List.mem_cons, List.not_mem_nil, or_false] at hop'
      rcases hop' with rfl | rfl <;> simp at hop
  | comparison hop hl hr _ =>
    cases h' with
    | operands hop' _ _ _ =>
      simp only [List.mem_cons, List.not_mem_nil, or_false] at hop
      rcases hop with rfl | rfl <;> simp at hop'
    | comparison _ hl' hr' _ => rw [hl.unique hl', hr.unique hr']
  | condition hc _ _ hne =>
    cases h' with
    | condition hc' _ _ _ => rw [hc.unique hc']
    | branches hc' _ _ _ => exact absurd (hc.unique hc') hne
  | branches hc ha hb _ =>
    cases h' with
    | condition hc' _ _ hne => exact absurd (hc'.unique hc) hne
    | branches _ ha' hb' _ => rw [ha.unique ha', hb.unique hb']
  | function => cases h' with | function => rfl
  | definition he hhead =>
    cases h' with
    | definition he' hhead' =>
      obtain rfl := he.unique he'
      exact Option.some.inj (hhead.symm.trans hhead')

/-- Only of a definition does it matter where it stands. -/
theorem Breaks.anywhere (h : Breaks shadowing Γ false n err) (hn : n.isDefinition = false) :
    Breaks shadowing Γ whole n err := by
  cases h with
  | undefined hx => exact .undefined hx
  | neg he hne => exact .neg he hne
  | not he hne => exact .not he hne
  | operands hop hl hr hne => exact .operands hop hl hr hne
  | comparison hop hl hr hne => exact .comparison hop hl hr hne
  | condition hc ha hb hne => exact .condition hc ha hb hne
  | branches hc ha hb hne => exact .branches hc ha hb hne
  | function => exact .function
  | definition _ _ => simp [Expr.isDefinition] at hn

/-- **The types that an error names are types of values.** -/
theorem Breaks.found_ne_error (hΓ : Γ.Sound) (h : Breaks shadowing Γ whole n err) :
    ∀ ty ∈ err.cause.found, ty ≠ .error := by
  have one : ∀ {e : Expr} {ty : Ty}, HasType Γ e ty → ∀ ty' ∈ [ty], ty' ≠ .error := by
    intro e ty he ty' hty'
    rw [List.mem_singleton.mp hty']
    exact he.ne_error hΓ
  have two : ∀ {l r : Expr} {left right : Ty}, HasType Γ l left → HasType Γ r right →
      ∀ ty ∈ [left, right], ty ≠ .error := by
    intro l r left right hl hr ty hty
    rcases List.mem_cons.mp hty with rfl | hty
    · exact hl.ne_error hΓ
    · exact one hr ty hty
  cases h with
  | undefined _ => exact fun _ h => absurd h List.not_mem_nil
  | neg he _ => exact one he
  | not he _ => exact one he
  | operands _ hl hr _ => exact two hl hr
  | comparison _ hl hr _ => exact two hl hr
  | condition hc _ _ _ => exact one hc
  | branches _ ha hb _ => exact two ha hb
  | function => exact fun _ h => absurd h List.not_mem_nil
  | @definition s x declared e ty _ he hhead =>
    intro ty' hty'
    rw [found_of_mem_definitionFaults (List.mem_of_mem_head? hhead) hty']
    exact he.ne_error hΓ

end Breaks

/-- **A statement has one root cause at most**: before a failure all nodes are well typed, and a
node that fails is not. -/
theorem RootCause.unique {shadowing : Shadowing} {Γ : Bindings} {e : Expr} {err err' : TypeError}
    (h : RootCause shadowing Γ e err) (h' : RootCause shadowing Γ e err') : err = err' := by
  obtain ⟨before, node, after, horder, typed, breaks⟩ := h
  obtain ⟨before', node', after', horder', typed', breaks'⟩ := h'
  rcases List.append_eq_append_iff.mp (horder.symm.trans horder') with ⟨mid, hb, hn⟩ | ⟨mid, hb, hn⟩
  · cases mid with
    | nil =>
      obtain ⟨rfl, rfl⟩ := List.cons.inj hn
      exact breaks.unique breaks'
    | cons n mid =>
      obtain ⟨rfl, -⟩ := List.cons.inj hn
      obtain ⟨ty, hty⟩ := typed' node (by simp [hb])
      exact absurd hty breaks.not_hasType
  · cases mid with
    | nil =>
      obtain ⟨rfl, rfl⟩ := List.cons.inj hn
      exact breaks.unique breaks'
    | cons n mid =>
      obtain ⟨rfl, -⟩ := List.cons.inj hn
      obtain ⟨ty, hty⟩ := typed node' (by simp [hb])
      exact absurd hty breaks'.not_hasType

/-! ## 3. The checker finds the first failure -/

/-- `FirstFault shadowing Γ nodes err`: of nodes that are parts of a statement, the first that is
not well typed breaks its rule, and `err` says so. -/
def FirstFault (shadowing : Shadowing) (Γ : Bindings) (nodes : List Expr) (err : TypeError) :
    Prop :=
  ∃ before node after, nodes = before ++ node :: after ∧ AllTyped Γ before ∧
    Breaks shadowing Γ false node err

section Infer

variable {shadowing : Shadowing} {Γ : Bindings} {err : TypeError} {a b : List Expr}

theorem AllTyped.append (ha : AllTyped Γ a) (hb : AllTyped Γ b) : AllTyped Γ (a ++ b) := by
  intro n hn
  rcases List.mem_append.mp hn with hn | hn
  · exact ha n hn
  · exact hb n hn

theorem FirstFault.append (h : FirstFault shadowing Γ a err) (b : List Expr) :
    FirstFault shadowing Γ (a ++ b) err := by
  obtain ⟨before, node, after, rfl, typed, breaks⟩ := h
  exact ⟨before, node, after ++ b, by simp, typed, breaks⟩

theorem FirstFault.after (ha : AllTyped Γ a) (h : FirstFault shadowing Γ b err) :
    FirstFault shadowing Γ (a ++ b) err := by
  obtain ⟨before, node, after, rfl, typed, breaks⟩ := h
  exact ⟨a ++ before, node, after, by simp, ha.append typed, breaks⟩

theorem Breaks.firstFault {n : Expr} (h : Breaks shadowing Γ false n err) :
    FirstFault shadowing Γ [n] err :=
  ⟨[], n, [], rfl, fun _ hn => absurd hn List.not_mem_nil, h⟩

theorem AllTyped.singleton {n : Expr} {ty : Ty} (h : HasType Γ n ty) : AllTyped Γ [n] := by
  intro m hm
  rw [List.mem_singleton.mp hm]
  exact ⟨ty, h⟩

/-- All nodes of a well-typed expression are well typed. -/
theorem HasType.allTyped {e : Expr} {ty : Ty} (h : HasType Γ e ty) : AllTyped Γ e.inOrder := by
  induction h with
  | literal => exact .singleton .literal
  | ident hb => exact .singleton (.ident hb)
  | neg he ih => exact ih.append (.singleton (.neg he))
  | not he ih => exact ih.append (.singleton (.not he))
  | arithmetic hop hl hr ihl ihr =>
    exact (ihl.append ihr).append (.singleton (.arithmetic hop hl hr))
  | ordering hop hl hr ihl ihr => exact (ihl.append ihr).append (.singleton (.ordering hop hl hr))
  | equality hop hl hr ihl ihr => exact (ihl.append ihr).append (.singleton (.equality hop hl hr))
  | cond hc ha hb ihc iha ihb =>
    exact ((ihc.append iha).append ihb).append (.singleton (.cond hc ha hb))

theorem allTyped_of_infer {e : Expr} {t : Typed} (h : e.infer Γ = .ok t) : AllTyped Γ e.inOrder :=
  (annotates_of_infer h).hasType.allTyped

/-- A typed tree keeps the span of its expression, and it is a literal if the expression is one. -/
theorem span_of_infer {e : Expr} {t : Typed} (h : e.infer Γ = .ok t) :
    t.span = e.span ∧ t.literal?.isSome = e.isLiteral := by
  cases annotates_of_infer h <;> exact ⟨rfl, rfl⟩

theorem reportAt_eq_error {α : Type} {s : Span} {x : Except TypeError.Cause α} :
    reportAt s x = .error err ↔ ∃ c, x = .error c ∧ err = ⟨s, c⟩ := by
  cases x with
  | error c => simp [reportAt, eq_comm]
  | ok a => simp [reportAt]

/-- The table of signatures, read as two ways to fail. -/
theorem apply_eq_error {op : BinaryOp} {left right : Ty} {c : TypeError.Cause}
    (h : op.apply left right = .error c) :
    (op ∈ [BinaryOp.add, .sub, .mul, .div, .lt, .le, .gt, .ge] ∧
      ¬ (left = .number ∧ right = .number) ∧
      c = .binaryOperands op .number .number left right) ∨
    (op ∈ [BinaryOp.eq, .ne] ∧ left ≠ right ∧ c = .notComparable op left right) := by
  have fails : ∀ (p : Prop) [Decidable p] (ty : Ty) (d : TypeError.Cause),
      (if p then Except.ok ty else .error d) = .error c → ¬ p ∧ c = d := by
    intro p _ ty d h
    by_cases hp : p
    · simp [hp] at h
    · simp only [if_neg hp, Except.error.injEq] at h
      exact ⟨hp, h.symm⟩
  cases op
  case eq => exact Or.inr ⟨by decide, fails _ _ _ h⟩
  case ne => exact Or.inr ⟨by decide, fails _ _ _ h⟩
  all_goals exact Or.inl ⟨by decide, fails _ _ _ h⟩

theorem breaks_unary {whole : Bool} {s : Span} {op : UnaryOp} {e : Expr} {ty : Ty}
    (he : HasType Γ e ty) (h : reportAt s (op.apply ty) = .error err) :
    Breaks shadowing Γ whole (.unary s op e) err := by
  obtain ⟨c, hc, rfl⟩ := reportAt_eq_error.mp h
  rw [UnaryOp.apply] at hc
  split at hc
  · simp at hc
  · next hne =>
    rw [← Except.error.inj hc]
    cases op with
    | neg => exact .neg he hne
    | not => exact .not he hne

theorem breaks_binary {whole : Bool} {s : Span} {op : BinaryOp} {l r : Expr} {left right : Ty}
    (hl : HasType Γ l left) (hr : HasType Γ r right)
    (h : reportAt s (op.apply left right) = .error err) :
    Breaks shadowing Γ whole (.binary s op l r) err := by
  obtain ⟨c, hc, rfl⟩ := reportAt_eq_error.mp h
  rcases apply_eq_error hc with ⟨hop, hne, rfl⟩ | ⟨hop, hne, rfl⟩
  · exact .operands hop hl hr hne
  · exact .comparison hop hl hr hne

theorem breaks_cond {whole : Bool} {s : Span} {c a b : Expr} {tc ta tb : Typed}
    (hc : c.infer Γ = .ok tc) (ha : a.infer Γ = .ok ta) (hb : b.infer Γ = .ok tb)
    (h : condRule s tc ta tb = .error err) : Breaks shadowing Γ whole (.cond s c a b) err := by
  have hct := (annotates_of_infer hc).hasType
  have hat := (annotates_of_infer ha).hasType
  have hbt := (annotates_of_infer hb).hasType
  rw [condRule] at h
  split at h
  · next hne =>
    rw [← Except.error.inj h, (span_of_infer hc).1]
    exact .condition hct hat hbt hne
  · next hbool =>
    split at h
    · next hne =>
      rw [← Except.error.inj h]
      exact .branches (Decidable.not_not.mp hbool ▸ hct) hat hbt hne
    · simp at h

/-- The declared type is the first rule of a definition. -/
theorem head?_definitionFaults_of_declaration {whole : Bool} {s : Span} {x : String}
    {declared : Option Ty} {e : Expr} {ty : Ty} {c : TypeError.Cause}
    (h : declarationRule x declared ty = .error c) :
    (definitionFaults shadowing Γ whole s x declared e ty).head? = some ⟨s, c⟩ := by
  cases declared with
  | none => simp [declarationRule] at h
  | some d =>
    simp only [declarationRule] at h
    split at h
    · simp at h
    · next hne =>
      rw [← Except.error.inj h]
      simp [definitionFaults, hne]

/-- Where the declared type fits, the other rules are next. -/
theorem definitionFaults_of_declared {whole : Bool} {s : Span} {x : String} {declared : Option Ty}
    {e : Expr} {ty : Ty} {u : Unit} (h : declarationRule x declared ty = .ok u) :
    definitionFaults shadowing Γ whole s x declared e ty =
      definitionFaults shadowing Γ whole s x none e ty := by
  rcases declarationRule_eq_ok.mp h with rfl | rfl
  · rfl
  · simp [definitionFaults]

/-- A definition by a literal that fits and may be bound breaks no rule. -/
theorem definitionFaults_eq_nil {s vs : Span} {x : String} {declared : Option Ty} {v : Value}
    (hd : declared = none ∨ declared = some v.ty) (hx : shadowing = .allow ∨ Γ.get? x = none) :
    definitionFaults shadowing Γ true s x declared (.literal vs v) v.ty = [] := by
  have free : ¬ (shadowing = .forbid ∧ (Γ.get? x).isSome) := by
    rcases hx with rfl | hx
    · simp
    · simp [hx]
  rcases hd with rfl | rfl <;> simp [definitionFaults, Expr.isLiteral, free]

/-- Where the declared type and the place are right, the value is next and then the name. -/
theorem head?_definitionFaults_of_binding {s : Span} {x : String} {e : Expr} {t : Typed}
    {r : Value → Typed × Bindings} (ht : e.infer Γ = .ok t)
    (h : (match t.literal? with
      | none => .error ⟨t.span, .notLiteral x⟩
      | some v =>
        if shadowing = .forbid ∧ Γ.contains x then .error ⟨s, .redefinition x⟩ else .ok (r v)) =
        Except.error err) :
    (definitionFaults shadowing Γ true s x none e t.ty).head? = some err := by
  obtain ⟨hspan, hlit⟩ := span_of_infer ht
  cases hv : t.literal? with
  | none =>
    rw [hv] at h hlit
    rw [← Except.error.inj h, hspan]
    simp [definitionFaults, ← hlit]
  | some v =>
    rw [hv] at h hlit
    by_cases hbound : shadowing = .forbid ∧ Γ.contains x
    · simp only [if_pos hbound, Except.error.injEq] at h
      rw [← h]
      have hname : shadowing = .forbid ∧ (Γ.get? x).isSome := hbound
      simp [definitionFaults, ← hlit, hname]
    · simp only [if_neg hbound] at h
      exact absurd h (by simp)

/-- **The checker reports the first failure** among the nodes of an expression. -/
theorem firstFault_of_infer (shadowing : Shadowing) {e : Expr} :
    ∀ {err : TypeError}, e.infer Γ = .error err → FirstFault shadowing Γ e.inOrder err := by
  induction e with
  | literal s v =>
    intro err h
    simp [Expr.infer] at h
  | ident s x =>
    intro err h
    rw [Expr.infer] at h
    cases hx : Γ.get? x with
    | some b => simp [hx] at h
    | none =>
      simp only [hx, Except.error.injEq] at h
      rw [← h]
      exact (Breaks.undefined hx).firstFault
  | unary s op e ih =>
    intro err h
    rw [Expr.infer] at h
    rcases bind_eq_error.mp h with he | ⟨t, ht, h⟩
    · exact (ih he).append _
    · rcases bind_eq_error.mp h with rule | ⟨ty, -, h⟩
      · have he := (annotates_of_infer ht).hasType
        exact .after he.allTyped (breaks_unary he rule).firstFault
      · simp at h
  | binary s op l r ihl ihr =>
    intro err h
    rw [Expr.infer] at h
    rcases bind_eq_error.mp h with hl | ⟨tl, htl, h⟩
    · exact ((ihl hl).append _).append _
    · rcases bind_eq_error.mp h with hr | ⟨tr, htr, h⟩
      · exact (FirstFault.after (allTyped_of_infer htl) (ihr hr)).append _
      · rcases bind_eq_error.mp h with rule | ⟨ty, -, h⟩
        · have hl := (annotates_of_infer htl).hasType
          have hr := (annotates_of_infer htr).hasType
          exact .after (hl.allTyped.append hr.allTyped) (breaks_binary hl hr rule).firstFault
        · simp at h
  | cond s c a b ihc iha ihb =>
    intro err h
    rw [infer_cond_eq] at h
    rcases bind_eq_error.mp h with hc | ⟨tc, htc, h⟩
    · exact (((ihc hc).append _).append _).append _
    · have typed_c := allTyped_of_infer htc
      rcases bind_eq_error.mp h with ha | ⟨ta, hta, h⟩
      · exact ((FirstFault.after typed_c (iha ha)).append _).append _
      · have typed_a := typed_c.append (allTyped_of_infer hta)
        rcases bind_eq_error.mp h with hb | ⟨tb, htb, h⟩
        · exact (FirstFault.after typed_a (ihb hb)).append _
        · rcases bind_eq_error.mp h with rule | ⟨ty, -, h⟩
          · exact .after (typed_a.append (allTyped_of_infer htb))
              (breaks_cond htc hta htb rule).firstFault
          · simp at h
  | lambda s params body =>
    intro err h
    rw [Expr.infer, Except.error.injEq] at h
    rw [← h]
    exact Breaks.function.firstFault
  | define s x declared e ih =>
    intro err h
    rw [Expr.infer] at h
    rcases bind_eq_error.mp h with he | ⟨t, ht, h⟩
    · exact (ih he).append _
    · have he := (annotates_of_infer ht).hasType
      refine .after he.allTyped (Breaks.definition he ?_).firstFault
      rcases bind_eq_error.mp h with rule | ⟨u, fits, h⟩
      · obtain ⟨c, hc, rfl⟩ := reportAt_eq_error.mp rule
        exact head?_definitionFaults_of_declaration hc
      · rw [definitionFaults_of_declared (reportAt_eq_ok.mp fits), ← Except.error.inj h]
        rfl

end Infer

/-! ## 4. Statements -/

section Check

variable {shadowing : Shadowing} {Γ : Bindings} {e : Expr} {err : TypeError}

/-- The last node is the expression itself. -/
theorem Expr.inOrder_eq (e : Expr) : ∃ parts, e.inOrder = parts ++ [e] := by
  cases e with
  | literal s v => exact ⟨[], rfl⟩
  | ident s x => exact ⟨[], rfl⟩
  | unary s op e => exact ⟨_, rfl⟩
  | binary s op l r => exact ⟨_, rfl⟩
  | cond s c a b => exact ⟨_, rfl⟩
  | lambda s params body => exact ⟨[], rfl⟩
  | define s x declared e => exact ⟨_, rfl⟩

theorem FirstFault.rootCause (he : e.isDefinition = false)
    (h : FirstFault shadowing Γ e.inOrder err) : RootCause shadowing Γ e err := by
  obtain ⟨before, node, after, horder, typed, breaks⟩ := h
  refine ⟨before, node, after, horder, typed, ?_⟩
  cases after with
  | cons n after => exact breaks
  | nil =>
    obtain ⟨parts, hparts⟩ := e.inOrder_eq
    obtain ⟨-, hnode⟩ := List.append_inj' (horder.symm.trans hparts) rfl
    rw [List.cons.inj hnode |>.1] at breaks ⊢
    exact breaks.anywhere he

/-- **What the checker reports is the root cause.** -/
theorem rootCause_of_check (h : e.check shadowing Γ = .error err) :
    RootCause shadowing Γ e err := by
  cases he : e.isDefinition with
  | false =>
    rw [check_eq_infer he] at h
    cases hi : e.infer Γ with
    | ok t => simp [hi, Except.map] at h
    | error err' =>
      rw [hi] at h
      rw [← Except.error.inj h]
      exact (firstFault_of_infer shadowing hi).rootCause he
  | true =>
    cases e with
    | define s x declared e =>
      rw [Expr.check] at h
      rcases bind_eq_error.mp h with hvalue | ⟨t, ht, h⟩
      · -- the value comes before the definition, so the failing node is not the last one
        obtain ⟨before, node, after, horder, typed, breaks⟩ := firstFault_of_infer shadowing hvalue
        refine ⟨before, node, after ++ [.define s x declared e], ?_, typed, ?_⟩
        · rw [Expr.inOrder, horder, List.append_assoc, List.cons_append]
        · rw [List.isEmpty_eq_false_iff.mpr (by simp)]
          exact breaks
      · have hty := (annotates_of_infer ht).hasType
        refine ⟨e.inOrder, _, [], rfl, hty.allTyped, .definition hty ?_⟩
        rcases bind_eq_error.mp h with rule | ⟨u, fits, h⟩
        · obtain ⟨c, hc, rfl⟩ := reportAt_eq_error.mp rule
          exact head?_definitionFaults_of_declaration hc
        · rw [definitionFaults_of_declared (reportAt_eq_ok.mp fits)]
          exact head?_definitionFaults_of_binding
            (r := fun v => (.define ⟨.unit, s⟩ x t, Γ.insert x ⟨t.ty, v⟩)) ht h
    | _ => simp [Expr.isDefinition] at he

/-- An accepted statement has no root cause. -/
theorem not_rootCause_of_check {t : Typed} {Γ' : Bindings} (h : e.check shadowing Γ = .ok (t, Γ')) :
    ¬ RootCause shadowing Γ e err := by
  rintro ⟨before, node, after, horder, -, breaks⟩
  obtain ⟨ty, hty⟩ : ∃ ty, StatementType shadowing Γ e ty := ⟨_, (statementType_of_check h).1⟩
  cases hty with
  | expression hty =>
    obtain ⟨ty, hn⟩ := hty.allTyped node (by simp [horder])
    exact breaks.not_hasType hn
  | definition hd hx =>
    -- there are two nodes, the literal and the definition, and no rule of theirs fails
    cases before with
    | nil =>
      obtain ⟨rfl, -⟩ := List.cons.inj horder
      exact breaks.not_hasType .literal
    | cons n before =>
      cases before with
      | cons m before => simp [Expr.inOrder] at horder
      | nil =>
        obtain ⟨rfl, rfl⟩ := List.cons.inj (List.cons.inj horder).2
        cases breaks with
        | definition hliteral hhead =>
          obtain rfl := hliteral.unique .literal
          rw [List.isEmpty_nil, definitionFaults_eq_nil hd hx] at hhead
          simp at hhead

/-- **The checker rejects a statement with its root cause, and only then.** -/
theorem check_eq_error_iff : e.check shadowing Γ = .error err ↔ RootCause shadowing Γ e err := by
  constructor
  · exact rootCause_of_check
  · intro h
    cases hc : e.check shadowing Γ with
    | error err' => rw [h.unique (rootCause_of_check hc)]
    | ok r => exact absurd h (not_rootCause_of_check hc)

end Check

/-! ## 5. Sessions -/

/-- **A session reports the root cause of a rejected statement, and nothing else.**  A statement is
rejected exactly when it has a root cause; then that is the one error of the answer.  A pass that
goes on after the failure answers the same.  The types that the error says it found are never the
type of errors. -/
theorem Session.check_reports_root_cause {s : Session} (hs : s.Reachable) (e : Expr) :
    (∀ errs, (s.check e).1 = .error errs ↔
      ∃ err, errs = [err] ∧ RootCause s.shadowing s.bindings e err) ∧
    (s.onePass [e]).1 = (s.check e).1.map ([·]) ∧
    ∀ err, RootCause s.shadowing s.bindings e err → ∀ ty ∈ err.cause.found, ty ≠ .error := by
  refine ⟨fun errs => ?_, ?_, ?_⟩
  · constructor
    · intro h
      obtain ⟨err, hc, herrs, -⟩ := check_error.mp (Prod.ext h rfl)
      exact ⟨err, herrs, check_eq_error_iff.mp hc⟩
    · rintro ⟨err, herrs, cause⟩
      rw [check_error.mpr ⟨err, check_eq_error_iff.mpr cause, herrs, rfl⟩]
  · rw [onePass_eq_checkProgram hs.sound, checkProgram_singleton]
  · rintro err ⟨before, node, after, -, -, breaks⟩
    exact breaks.found_ne_error hs.sound

/-- `let x: Bool = if b then b + 1 else u` with `b` bound to `true`: the addition is the cause.  The
unknown name comes after it, and the `if` and the definition come after both. -/
theorem Session.check_reports_root_cause_addition :
    let s := (Session.new none .forbid).run [.define "b" (.bool true)]
    let sum := Expr.binary ⟨19, 24⟩ .add (.ident ⟨19, 20⟩ "b") (.literal ⟨23, 24⟩ (.number ⟨1⟩))
    let e := Expr.define ⟨0, 31⟩ "x" (some .bool)
      (.cond ⟨12, 31⟩ (.ident ⟨15, 16⟩ "b") sum (.ident ⟨30, 31⟩ "u"))
    let err : TypeError := ⟨⟨19, 24⟩, .binaryOperands .add .number .number .bool .number⟩
    s.Reachable ∧ (s.check e).1 = .error [err] ∧ RootCause s.shadowing s.bindings e err ∧
      ∀ ty ∈ err.cause.found, ty ≠ .error := by
  intro s sum e err
  have reachable : s.Reachable := ⟨none, .forbid, [.define "b" (.bool true)], rfl⟩
  have rejected : (s.check e).1 = .error [err] := rfl
  obtain ⟨reports, -, found⟩ := Session.check_reports_root_cause reachable e
  obtain ⟨err', heq, cause⟩ := (reports [err]).mp rejected
  obtain rfl : err = err' := List.cons.inj heq |>.1
  exact ⟨reachable, rejected, cause, found err cause⟩

end ExprLang
