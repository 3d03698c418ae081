/-
# The pool of generated code

A pool is filled while code is written: for each leaf the generator looks for an entry that is the
same constant, from the first one on, and adds an entry if there is none.  The outcome does not
depend on how the leaves are spread over operands, branches and statements.  **It is the list of all
leaves that need the pool, each constant once, where it occurs first**
(`pooled_eq_firstOccurrences`).

The traversal and the pool are taken apart.  `Interned` says what interning a list of values does,
with no tree in it; `Typed.scheme_interned` says that the code of a tree interns the leaves of the
tree, from left to right, and nothing else.  What is known about the slots is then proved of lists.
The slots lead back to the leaves, one by one, and no entry is left without a slot that leads to it.
A NaN is never found again, so each of its occurrences has an entry of its own.

In the compiler an entry is looked for and added by `add_constant`.
-/
import ExprLang.Proofs.Container
import ExprLang.Proofs.Validity
import Mathlib.Data.List.Basic

namespace ExprLang

/-! ## 1. Leaves -/

/-- The values of the leaves of a tree, from left to right.  The value of a definition is none of
them. -/
def Typed.leafValues : Typed → List Value
  | .constant _ v => [v]
  | .ident _ _ v => v.toList
  | .unary _ _ e => e.leafValues
  | .binary _ _ l r => l.leafValues ++ r.leafValues
  | .cond _ c a b => c.leafValues ++ (a.leafValues ++ b.leafValues)
  | .lambda _ => []
  | .define .. => []

/-- Numbers and strings come from the pool; the other values have operations of their own. -/
def Value.isPooled : Value → Bool
  | .number _ | .str _ => true
  | .bool _ | .unit => false

/-- The leaves of statements that need the pool, in the order of the code. -/
def pooledLeaves (ts : List Typed) : List Value :=
  (ts.flatMap Typed.leafValues).filter Value.isPooled

theorem leafPoolValues_ty (v : Value) : leafPoolValues v.ty v = [v].filter Value.isPooled := by
  cases v <;> rfl

/-- In a well-typed tree the type of a leaf says of its value whether it needs the pool. -/
theorem Typed.WellTyped.poolValues_eq {t : Typed} (h : t.WellTyped) :
    t.poolValues = t.leafValues.filter Value.isPooled := by
  induction h with
  | constant => exact leafPoolValues_ty _
  | ident => exact leafPoolValues_ty _
  | unary _ _ ih => exact ih
  | binary _ _ _ ihl ihr =>
    rw [Typed.poolValues, Typed.leafValues, List.filter_append, ihl, ihr]
  | cond _ _ _ _ _ ihc iha ihb =>
    rw [Typed.poolValues, Typed.leafValues, List.filter_append, List.filter_append, ihc, iha, ihb]

theorem flatMap_poolValues {ts : List Typed} (h : ∀ t ∈ ts, t.WellTypedStatement) :
    ts.flatMap Typed.poolValues = pooledLeaves ts := by
  rw [pooledLeaves, List.filter_flatMap]
  refine List.flatMap_congr fun t ht => ?_
  cases h t ht with
  | expression he => exact he.poolValues_eq
  | definition => rfl

/-! ## 2. Interning one value after another -/

/-- `Interned pool vs slots pool'`: interning the values one after another leads from `pool` to
`pool'`, and gives the slots. -/
inductive Interned : List Value → List Value → List UInt8 → List Value → Prop where
  | nil {pool : List Value} : Interned pool [] [] pool
  | cons {pool p₁ pool' vs : List Value} {v : Value} {x : UInt8} {slots : List UInt8} :
      intern pool v = some (x, p₁) → Interned p₁ vs slots pool' →
      Interned pool (v :: vs) (x :: slots) pool'

section Interned

variable {pool p₁ pool' vs ws : List Value} {slots slots' : List UInt8}

theorem Interned.append (h : Interned pool vs slots p₁) (h' : Interned p₁ ws slots' pool') :
    Interned pool (vs ++ ws) (slots ++ slots') pool' := by
  induction h with
  | nil => exact h'
  | cons hx _ ih => exact .cons hx (ih h')

theorem Interned.grows (h : Interned pool vs slots pool') : pool <+: pool' := by
  induction h with
  | nil => exact List.prefix_refl _
  | cons hx _ ih => exact (intern_some hx).1.trans ih

/-- **The slots lead back to the values**, one by one and bit for bit. -/
theorem Interned.entries (h : Interned pool vs slots pool') :
    slots.map (fun x => pool'[x.toNat]?) = vs.map some := by
  induction h with
  | nil => rfl
  | @cons pool p₁ pool' vs v x slots hx hrest ih =>
    obtain ⟨rest, rfl⟩ := hrest.grows
    have entry := (intern_some hx).2
    obtain ⟨inside, -⟩ := List.getElem?_eq_some_iff.mp entry
    rw [List.map_cons, List.map_cons, ih, List.getElem?_append_left inside, entry]

/-- **Every new entry has a slot that leads to it.** -/
theorem Interned.covers (h : Interned pool vs slots pool') :
    ∀ i, pool.length ≤ i → i < pool'.length → ∃ x ∈ slots, x.toNat = i := by
  induction h with
  | nil =>
    intro i hi hlt
    omega
  | @cons pool p₁ pool' vs v x slots hx _ ih =>
    intro i hi hlt
    by_cases hnew : p₁.length ≤ i
    · obtain ⟨y, hy, hyi⟩ := ih i hnew hlt
      exact ⟨y, List.mem_cons_of_mem x hy, hyi⟩
    · -- The entry has just been added, for the constant itself.
      obtain ⟨hslot, rfl⟩ := slot_of_intern hx
      unfold pooledOnce at hnew
      split at hnew
      · omega
      · next absent =>
        rw [List.any_eq_true, not_exists] at absent
        rw [List.length_append, List.length_singleton] at hnew
        refine ⟨x, List.mem_cons_self, ?_⟩
        rw [hslot, slot, List.findIdx_eq_length_of_false fun w hw => by simpa [hw] using absent w]
        omega

theorem Interned.mem (h : Interned [] vs slots pool') {v : Value} (hv : v ∈ pool') : v ∈ vs := by
  obtain ⟨i, hi, rfl⟩ := List.getElem_of_mem hv
  obtain ⟨x, hx, rfl⟩ := h.covers i (Nat.zero_le i) hi
  have entry : pool'[x.toNat]? ∈ slots.map fun x => pool'[x.toNat]? := List.mem_map_of_mem hx
  rw [h.entries, List.getElem?_eq_getElem hi] at entry
  obtain ⟨w, hw, heq⟩ := List.mem_map.mp entry
  exact Option.some.inj heq ▸ hw

end Interned

/-! ## 3. Code interns its leaves -/

/-- The slot that an instruction pushes the constant of. -/
def Instruction.pushed? : Instruction → Option UInt8
  | .withOperand .pushConstant x => some x
  | _ => none

/-- The slots of the constants that code pushes, in the order of the code. -/
def slotsOf (code : List Located) : List UInt8 :=
  (code.map Located.instruction).filterMap Instruction.pushed?

theorem slotsOf_append (code code' : List Located) :
    slotsOf (code ++ code') = slotsOf code ++ slotsOf code' := by
  simp [slotsOf]

theorem slotsOf_discardCode (lines : LineMap) (t : Typed) : slotsOf (discardCode lines t) = [] := by
  rw [discardCode]
  split <;> rfl

section Scheme

variable {lines : LineMap}

theorem constantScheme_interned {v : Value} {line : UInt32} {pool pool' : List Value}
    {code : List Located} (h : constantScheme v line pool = .ok (code, pool')) :
    Interned pool [v] (slotsOf code) pool' := by
  obtain ⟨x, hx, rfl⟩ := constantScheme_ok h
  exact .cons hx .nil

theorem leafScheme_interned {ty : Ty} {v : Value} {line : UInt32} {pool pool' : List Value}
    {code : List Located} (h : leafScheme ty v line pool = .ok (code, pool')) :
    Interned pool (leafPoolValues ty v) (slotsOf code) pool' := by
  cases ty with
  | number => exact constantScheme_interned h
  | string => exact constantScheme_interned h
  | bool =>
    obtain ⟨rfl, rfl⟩ := Prod.mk.inj (Except.ok.inj h)
    exact .nil
  | unit =>
    obtain ⟨rfl, rfl⟩ := Prod.mk.inj (Except.ok.inj h)
    exact .nil
  | error =>
    obtain ⟨rfl, rfl⟩ := Prod.mk.inj (Except.ok.inj h)
    exact .nil

/-- **The code of a tree interns the leaves of the tree, from left to right, and nothing else.** -/
theorem Typed.scheme_interned {t : Typed} : ∀ {pool pool' : List Value} {code : List Located},
    t.scheme lines pool = .ok (code, pool') → Interned pool t.poolValues (slotsOf code) pool' := by
  induction t with
  | constant i v =>
    intro pool pool' code h
    exact leafScheme_interned h
  | ident i x v =>
    intro pool pool' code h
    cases v with
    | some v => exact leafScheme_interned h
    | none =>
      obtain ⟨rfl, rfl⟩ := Prod.mk.inj (Except.ok.inj h)
      exact .nil
  | unary i op e ih =>
    intro pool pool' code h
    obtain ⟨operand, he, rfl⟩ := scheme_unary_ok h
    have own : slotsOf [⟨.simple (.unary op), lines.lineOf i.span.start⟩] = [] := rfl
    rw [slotsOf_append, own, List.append_nil]
    exact ih he
  | binary i op l r ihl ihr =>
    intro pool pool' code h
    obtain ⟨left, p₁, right, hl, hr, rfl⟩ := scheme_binary_ok h
    have own : slotsOf [⟨.simple (.binary op), lines.lineOf i.span.start⟩] = [] := rfl
    rw [slotsOf_append, slotsOf_append, own, List.append_nil]
    exact (ihl hl).append (ihr hr)
  | cond i c a b ihc iha ihb =>
    intro pool pool' code h
    obtain ⟨test, p₁, yes, p₂, no, toElse, toEnd, hc, ha, hb, -, -, rfl⟩ := scheme_cond_ok h
    -- The two jumps push nothing, so that only the slots of the parts are left.
    have jumps : slotsOf (⟨.withOperand .jumpIfFalse toElse, lines.lineOf i.span.start⟩ ::
        (yes ++ ⟨.withOperand .jump toEnd, lines.lineOf i.span.start⟩ :: no)) =
        slotsOf yes ++ slotsOf no := slotsOf_append yes _
    rw [slotsOf_append, jumps]
    exact (ihc hc).append ((iha ha).append (ihb hb))
  | lambda i =>
    intro pool pool' code h
    cases h
  | define i x e _ =>
    intro pool pool' code h
    obtain ⟨rfl, rfl⟩ := Prod.mk.inj (Except.ok.inj h)
    exact .nil

theorem schemeAll_interned : ∀ {ts : List Typed} {pool pool' : List Value} {code : List Located},
    schemeAll lines ts pool = .ok (code, pool') →
      Interned pool (ts.flatMap Typed.poolValues) (slotsOf code) pool'
  | [], pool, pool', code, h => by
    obtain ⟨rfl, rfl⟩ := Prod.mk.inj (Except.ok.inj h)
    exact .nil
  | [t], pool, pool', code, h => by
    rw [List.flatMap_singleton]
    exact Typed.scheme_interned h
  | t :: u :: ts, pool, pool', code, h => by
    obtain ⟨first, p₁, rest, ht, hrest, rfl⟩ := schemeAll_cons_ok h
    rw [slotsOf_append, slotsOf_append, slotsOf_discardCode, List.nil_append,
      List.flatMap_cons (x := t)]
    exact (Typed.scheme_interned ht).append (schemeAll_interned hrest)

end Scheme

/-! ## 4. The pool without the traversal -/

/-- The constants among the values, each where it occurs first: a value goes if it is the same
constant as one before it that has stayed. -/
def firstOccurrences (vs : List Value) : List Value := vs.eraseDupsBy fun v w => decide (v.Same w)

theorem any_sameConstant (pool : List Value) (v : Value) :
    pool.any (·.sameConstant v) = pool.any fun w => decide (v.Same w) := by
  refine congrArg (List.any pool) (funext fun w => ?_)
  rw [Bool.eq_iff_iff, decide_eq_true_iff, sameConstant_iff]
  constructor
  · rintro ⟨rfl, h⟩
    exact ⟨rfl, h⟩
  · rintro ⟨rfl, h⟩
    exact ⟨rfl, h⟩

theorem pooled_reverse (vs : List Value) : ∀ kept : List Value,
    pooled kept.reverse vs = List.eraseDupsBy.loop (fun v w => decide (v.Same w)) vs kept := by
  induction vs with
  | nil => exact fun _ => rfl
  | cons v vs ih =>
    intro kept
    have step : pooled kept.reverse (v :: vs) = pooled (pooledOnce kept.reverse v) vs := rfl
    rw [step, pooledOnce, List.any_reverse, any_sameConstant, List.eraseDupsBy.loop]
    cases kept.any fun w => decide (v.Same w) with
    | true => exact ih kept
    | false =>
      rw [← ih (v :: kept), List.reverse_cons]
      rfl

/-- **Adding values one by one leaves each constant where it occurs first.** -/
theorem pooled_eq_firstOccurrences (vs : List Value) : pooled [] vs = firstOccurrences vs :=
  pooled_reverse vs []

/-! ## 5. Generated code -/

/-- The pool of the code is that of the statements. -/
structure Bytecode.Pools (c : Bytecode) (ts : List Typed) : Prop where
  constants : c.constants.toList = firstOccurrences (pooledLeaves ts)
  /-- The code pushes the leaves, each from an entry that is its value, and uses every entry. -/
  pushes : ∃ is, c.decode = .ok is ∧
    (is.filterMap Instruction.pushed?).map c.constant? = (pooledLeaves ts).map some ∧
    ∀ i < c.constants.size, ∃ x ∈ is.filterMap Instruction.pushed?, x.toNat = i
  /-- An entry is a number or a string, and stands in a statement that is no definition. -/
  sources : ∀ v ∈ c.constants, (v.ty = .number ∨ v.ty = .string) ∧
    ∃ t ∈ ts, t.isDefinition = false ∧ v ∈ t.leafValues

theorem Value.ty_of_isPooled {v : Value} (h : v.isPooled = true) :
    v.ty = .number ∨ v.ty = .string := by
  cases v with
  | number n => exact Or.inl rfl
  | str text => exact Or.inr rfl
  | bool b => cases h
  | unit => cases h

theorem Typed.isDefinition_of_mem_leafValues {t : Typed} {v : Value} (h : v ∈ t.leafValues) :
    t.isDefinition = false := by
  cases t with
  | define i x e => cases h
  | _ => rfl

theorem pools_of_ofProgram {lines : LineMap} {ts : List Typed} {c : Bytecode}
    (hts : ∀ t ∈ ts, t.WellTypedStatement) (h : Bytecode.ofProgram lines ts = .ok c) :
    c.Pools ts := by
  obtain ⟨code, hscheme, hbytes, -⟩ := scheme_of_ofProgram h
  have interned := schemeAll_interned hscheme
  have constants := (carries_of_ofProgram h).constants
  rw [flatMap_poolValues hts] at interned constants
  rw [pooled_eq_firstOccurrences] at constants
  refine ⟨constants, ⟨code.map Located.instruction, ?_, ?_, ?_⟩, ?_⟩
  · rw [Bytecode.decode_eq_ok_iff, hbytes, bytesOf_eq_encodeAll]
  · rw [← interned.entries]
    refine List.map_congr_left fun x _ => ?_
    rw [Bytecode.constant?, Array.getElem?_toList]
  · intro i hi
    exact interned.covers i (Nat.zero_le i) hi
  · intro v hv
    obtain ⟨leaf, pooled⟩ := List.mem_filter.mp (interned.mem (Array.mem_toList_iff.mpr hv))
    obtain ⟨t, ht, hvt⟩ := List.mem_flatMap.mp leaf
    exact ⟨Value.ty_of_isPooled pooled, t, ht, Typed.isDefinition_of_mem_leafValues hvt, hvt⟩

/-- **The pool of generated code is canonical.**  Whatever a reachable session's check delivers, the
code that any session generates for all of it, or for one of its trees, has the constants of its
leaves in the pool, each where it occurs first and with no other beside them, and pushes each leaf
from its entry. -/
theorem Session.constant_pool_is_canonical {s : Session} (hs : s.Reachable) {ts : List Typed}
    (hd : s.Delivers ts) (g : Session) :
    (∀ ty c, g.generateProgram ts = .ok (ty, c) → c.Pools ts) ∧
      ∀ t ∈ ts, ∀ ty c, g.generate t = .ok (ty, c) → c.Pools [t] := by
  have wellTyped := hd.wellTyped hs
  refine ⟨fun ty c h => pools_of_ofProgram wellTyped (generateProgram_ok h).1,
    fun t ht ty c h => ?_⟩
  rw [generate_eq_generateProgram] at h
  refine pools_of_ofProgram (fun u hu => ?_) (generateProgram_ok h).1
  rw [List.mem_singleton.mp hu]
  exact wellTyped t ht

/-- `let s = "b"; x == -0.0; if true then "a" else "a"; NaN == NaN` with `x` bound to zero: both
zeros and both NaNs have entries, the two strings share one, and neither `true` nor `"b"` has
any. -/
theorem Session.constant_pool_is_canonical_zeros :
    let zero := Value.number ⟨0⟩
    let minusZero := Value.number ⟨0x8000000000000000⟩
    let nan := Value.number ⟨0x7FF8000000000001⟩
    let lit := Expr.literal .zero
    let es := [.define .zero "s" none (lit (.str "b")),
      .binary .zero .eq (.ident .zero "x") (lit minusZero),
      .cond .zero (lit (.bool true)) (lit (.str "a")) (lit (.str "a")),
      .binary .zero .eq (lit nan) (lit nan)]
    let s := (new none .forbid).run [.define "x" zero]
    ∃ ts s' c, s.checkProgram es = (.ok ts, s') ∧ s.generateProgram ts = .ok (.bool, c) ∧
      c.Pools ts ∧ pooledLeaves ts = [zero, minusZero, .str "a", .str "a", nan, nan] ∧
      c.constants.toList = [zero, minusZero, .str "a", nan, nan] := by
  intro zero minusZero nan lit es s
  have reachable : s.Reachable := ⟨none, .forbid, [.define "x" zero], rfl⟩
  obtain ⟨ts, s', c, checked, generated, leaves⟩ : ∃ ts s' c, s.checkProgram es = (.ok ts, s') ∧
      s.generateProgram ts = .ok (.bool, c) ∧
      pooledLeaves ts = [zero, minusZero, .str "a", .str "a", nan, nan] :=
    ⟨_, _, _, rfl, by cbv, rfl⟩
  have canonical :=
    (constant_pool_is_canonical reachable (Or.inl ⟨es, s', checked⟩) s).1 _ c generated
  refine ⟨ts, s', c, checked, generated, canonical, leaves, ?_⟩
  rw [canonical.constants, leaves]
  decide

end ExprLang
