/-
# Stacks of types

A verifier for code looks at every path through it, also at those that no run takes: it wants **one
stack of types for each place in the code**, such that every instruction finds its operands there
and leaves what each of its successors expects.  `Bytecode.StackTyping` is what it accepts.

The stacks of generated code can be read off the tree (`Typed.stacks`).  Where two paths meet, at
the end of an `if`, both have pushed one value of the type of the branches on the stack that the
`if` began with; this is all that the case of the `if` in `Typed.WellTyped.verified` says.
-/
import ExprLang.Proofs.Scheme

namespace ExprLang

/-! ## 1. The rules of the verifier -/

/-- `StackEffect c i before after`: on a stack of the types `before`, top first, the instruction has
the operands that it needs, and `after` are the types that it leaves. -/
inductive StackEffect (c : Bytecode) : Instruction → List Ty → List Ty → Prop where
  | pushConstant {x : UInt8} {v : Value} {st : List Ty} : c.constant? x = some v →
      StackEffect c (.withOperand .pushConstant x) st (v.ty :: st)
  | pushTrue {st : List Ty} : StackEffect c (.simple .pushTrue) st (.bool :: st)
  | pushFalse {st : List Ty} : StackEffect c (.simple .pushFalse) st (.bool :: st)
  | pushUnit {st : List Ty} : StackEffect c (.simple .pushUnit) st (.unit :: st)
  | pop {ty : Ty} {st : List Ty} : StackEffect c (.simple .pop) (ty :: st) st
  | negate {st : List Ty} : StackEffect c (.simple (.unary .neg)) (.number :: st) (.number :: st)
  | not {st : List Ty} : StackEffect c (.simple (.unary .not)) (.bool :: st) (.bool :: st)
  | arithmetic {op : BinaryOp} {st : List Ty} : op ∈ [.add, .sub, .mul, .div] →
      StackEffect c (.simple (.binary op)) (.number :: .number :: st) (.number :: st)
  | ordering {op : BinaryOp} {st : List Ty} : op ∈ [.lt, .le, .gt, .ge] →
      StackEffect c (.simple (.binary op)) (.number :: .number :: st) (.bool :: st)
  | equality {op : BinaryOp} {ty : Ty} {st : List Ty} : op ∈ [.eq, .ne] →
      StackEffect c (.simple (.binary op)) (ty :: ty :: st) (.bool :: st)
  | jump {x : UInt8} {st : List Ty} : StackEffect c (.withOperand .jump x) st st
  | jumpIfFalse {x : UInt8} {st : List Ty} :
      StackEffect c (.withOperand .jumpIfFalse x) (.bool :: st) st

/-- Where control can go from an instruction: to the next one, unless it is an unconditional jump,
and to the target of a jump. -/
def Instruction.successors (i : Instruction) (offset : Nat) : List Nat :=
  match i with
  | .withOperand .jump _ => (i.target? offset).toList
  | _ => (offset + i.size) :: (i.target? offset).toList

@[simp]
theorem successors_jump (x : UInt8) (o : Nat) :
    (Instruction.withOperand .jump x).successors o = [o + 2 + x.toNat] := rfl

@[simp]
theorem successors_jumpIfFalse (x : UInt8) (o : Nat) :
    (Instruction.withOperand .jumpIfFalse x).successors o = [o + 2, o + 2 + x.toNat] := rfl

/-- An item is an instruction that has its operands on the stack of its offset, and all of its
successors have the stack that it leaves. -/
def Item.Verified (c : Bytecode) (σ : Nat → Option (List Ty)) (item : Item) : Prop :=
  ∃ i before after, item.content = .ok i ∧ σ item.offset = some before ∧
    StackEffect c i before after ∧ ∀ o ∈ i.successors item.offset, σ o = some after

/-- `c.StackTyping σ exit`: `σ` gives a stack of types to every instruction and to the end of the
code, and to nothing else; the first is empty, the last is `exit`, and every item is verified. -/
structure Bytecode.StackTyping (c : Bytecode) (σ : Nat → Option (List Ty)) (exit : List Ty) :
    Prop where
  domain : ∀ o, (σ o).isSome ↔ o = c.size ∨ ∃ item ∈ c.items, item.offset = o
  entry : σ 0 = some []
  atEnd : σ c.size = some exit
  items : ∀ item ∈ c.items, item.Verified c σ

/-! ## 2. The stacks of generated code -/

/-- The stack before each instruction of the code of a tree, on top of the stack `st`. -/
def Typed.stacks : Typed → List Ty → List (List Ty)
  | .constant .., st => [st]
  | .ident .., st => [st]
  | .unary _ _ e, st => e.stacks st ++ [e.ty :: st]
  | .binary _ _ l r, st => l.stacks st ++ (r.stacks (l.ty :: st) ++ [r.ty :: l.ty :: st])
  | .cond _ c a b, st => c.stacks st ++ (c.ty :: st) :: (a.stacks st ++ (a.ty :: st) :: b.stacks st)
  | .lambda _, _ => []
  | .define .., _ => []

/-- The stack before the code that drops the value of a statement. -/
def Typed.discardStacks (t : Typed) : List (List Ty) := if t.isDefinition then [] else [t.leaves]

/-- The stack before each instruction of the code of a list of statements. -/
def stacksAll : List Typed → List (List Ty)
  | [] => []
  | [t] => t.stacks []
  | t :: u :: ts => t.stacks [] ++ (t.discardStacks ++ stacksAll (u :: ts))

/-- The assignment that gives the stacks to the instructions from the offset `o` on, in order, and
`exit` to the end. -/
def assignment (exit : List Ty) : Nat → List Located → List (List Ty) → Nat → Option (List Ty)
  | o, l :: code, st :: sts, x =>
    if x = o then some st else assignment exit (o + l.instruction.size) code sts x
  | o, _, _, x => if x = o then some exit else none

section Pieces

variable {lines : LineMap} {pool pool' : List Value} {code : List Located}

theorem length_leafScheme {v : Value} {line : UInt32}
    (h : leafScheme v.ty v line pool = .ok (code, pool')) : code.length = 1 := by
  obtain ⟨i, rfl, -⟩ := leafScheme_ok h
  rfl

/-- There is one stack for each instruction. -/
theorem Typed.WellTyped.length_stacks {t : Typed} (ht : t.WellTyped) :
    ∀ {pool pool' : List Value} {code : List Located} (st : List Ty),
      t.scheme lines pool = .ok (code, pool') → code.length = (t.stacks st).length := by
  induction ht with
  | constant =>
    intro pool pool' code st h
    exact length_leafScheme h
  | ident =>
    intro pool pool' code st h
    exact length_leafScheme h
  | unary _ _ ih =>
    intro pool pool' code st h
    obtain ⟨operand, he, rfl⟩ := scheme_unary_ok h
    simp [Typed.stacks, ih st he]
  | @binary s op l r ty _ _ _ ihl ihr =>
    intro pool pool' code st h
    obtain ⟨left, p₁, right, hl, hr, rfl⟩ := scheme_binary_ok h
    simp [Typed.stacks, ihl st hl, ihr (l.ty :: st) hr]
  | cond _ _ _ _ _ ihc iha ihb =>
    intro pool pool' code st h
    obtain ⟨test, p₁, yes, p₂, no, toElse, toEnd, hc, ha, hb, -, -, rfl⟩ := scheme_cond_ok h
    simp [Typed.stacks, ihc st hc, iha st ha, ihb st hb]

theorem Typed.WellTypedStatement.length_stacks {t : Typed} (ht : t.WellTypedStatement)
    (h : t.scheme lines pool = .ok (code, pool')) : code.length = (t.stacks []).length := by
  cases ht with
  | expression ht => exact ht.length_stacks [] h
  | definition =>
    rw [scheme_define_ok h]
    rfl

theorem length_discardStacks (lines : LineMap) (t : Typed) :
    (discardCode lines t).length = t.discardStacks.length := by
  rw [discardCode, Typed.discardStacks]
  cases t.isDefinition <;> rfl

theorem length_stacksAll : ∀ {ts : List Typed} {pool pool' : List Value} {code : List Located},
    (∀ t ∈ ts, t.WellTypedStatement) → schemeAll lines ts pool = .ok (code, pool') →
    code.length = (stacksAll ts).length
  | [], pool, pool', code, _, h => by
    rw [schemeAll_nil_ok h]
    rfl
  | [t], pool, pool', code, ht, h => (ht t (List.mem_singleton_self t)).length_stacks h
  | t :: u :: ts, pool, pool', code, ht, h => by
    obtain ⟨first, p₁, rest, hfirst, hrest, rfl⟩ := schemeAll_cons_ok h
    obtain ⟨first_wt, rest_wt⟩ := List.forall_mem_cons.mp ht
    simp [stacksAll, first_wt.length_stacks hfirst, length_discardStacks,
      length_stacksAll rest_wt hrest]

end Pieces

/-! ## 3. Pieces of an assignment -/

/-- `Agrees σ o code sts`: from the offset `o` on, `σ` gives the stacks `sts` to the instructions of
`code`. -/
def Agrees (σ : Nat → Option (List Ty)) : Nat → List Located → List (List Ty) → Prop
  | o, l :: code, st :: sts => σ o = some st ∧ Agrees σ (o + l.instruction.size) code sts
  | _, [], [] => True
  | _, _, _ => False

section Agreement

variable {σ : Nat → Option (List Ty)}

theorem Agrees.append {b : List Located} {y : List (List Ty)} :
    ∀ {a : List Located} {x : List (List Ty)} {o : Nat}, Agrees σ o (a ++ b) (x ++ y) →
      a.length = x.length → Agrees σ o a x ∧ Agrees σ (o + byteCount a) b y
  | [], [], o, h, _ => ⟨trivial, h⟩
  | l :: a, st :: x, o, h, hlen => by
    obtain ⟨hhead, htail⟩ := Agrees.append h.2 (Nat.succ.inj hlen)
    rw [byteCount_cons, ← Nat.add_assoc]
    exact ⟨⟨h.1, hhead⟩, htail⟩

/-- Only the offsets from `o` on matter. -/
theorem Agrees.congr {σ' : Nat → Option (List Ty)} :
    ∀ {code : List Located} {sts : List (List Ty)} {o : Nat}, Agrees σ o code sts →
      (∀ x, o ≤ x → σ' x = σ x) → Agrees σ' o code sts
  | [], [], o, _, _ => trivial
  | l :: code, st :: sts, o, h, heq => by
    refine ⟨(heq o (Nat.le_refl o)).trans h.1, h.2.congr fun x hx => heq x ?_⟩
    exact Nat.le_trans (Nat.le_add_right o _) hx

/-- **The assignment gives every instruction its stack, and the end `exit`.** -/
theorem assignment_agrees (exit : List Ty) :
    ∀ {code : List Located} {sts : List (List Ty)} (o : Nat), code.length = sts.length →
      Agrees (assignment exit o code sts) o code sts ∧
        assignment exit o code sts (o + byteCount code) = some exit
  | [], [], o, _ => ⟨trivial, if_pos rfl⟩
  | l :: code, st :: sts, o, hlen => by
    obtain ⟨agrees, atEnd⟩ :=
      assignment_agrees exit (o + l.instruction.size) (Nat.succ.inj hlen)
    have hsize := l.instruction.size_pos
    -- behind the first instruction the assignment is that of the rest
    have later : ∀ x, o + l.instruction.size ≤ x → assignment exit o (l :: code) (st :: sts) x =
        assignment exit (o + l.instruction.size) code sts x := by
      intro x hx
      exact if_neg (by omega)
    refine ⟨⟨if_pos rfl, agrees.congr later⟩, ?_⟩
    rw [byteCount_cons, ← Nat.add_assoc, later _ (Nat.le_add_right _ _)]
    exact atEnd

end Agreement

/-- The assignment is defined at the items and at the end, and nowhere else. -/
theorem isSome_assignment (exit : List Ty) (x : Nat) :
    ∀ {code : List Located} {sts : List (List Ty)} (o : Nat), code.length = sts.length →
      ((assignment exit o code sts x).isSome ↔
        x = o + byteCount code ∨ ∃ item ∈ decodeFrom o (bytesOf code), item.offset = x)
  | [], [], o, _ => by
    by_cases hx : x = o <;> simp [assignment, decodeFrom, hx]
  | l :: code, st :: sts, o, hlen => by
    have ih := isSome_assignment exit x (o + l.instruction.size) (Nat.succ.inj hlen)
    rw [decodeFrom_bytesOf_cons, byteCount_cons, ← Nat.add_assoc, assignment]
    by_cases hx : x = o
    · rw [if_pos hx]
      exact iff_of_true rfl (Or.inr ⟨_, List.mem_cons_self, hx.symm⟩)
    · rw [if_neg hx, ih]
      refine or_congr_right ⟨?_, ?_⟩
      · rintro ⟨item, hitem, heq⟩
        exact ⟨item, List.mem_cons_of_mem _ hitem, heq⟩
      · rintro ⟨item, hitem, heq⟩
        rcases List.mem_cons.mp hitem with rfl | hitem
        · exact absurd heq.symm hx
        · exact ⟨item, hitem, heq⟩

/-! ## 4. Every path is verified -/

/-- The instructions of `code`, which begins at the offset `o`, are verified. -/
def VerifiedFrom (c : Bytecode) (σ : Nat → Option (List Ty)) (o : Nat) (code : List Located) :
    Prop :=
  ∀ item ∈ decodeFrom o (bytesOf code), item.Verified c σ

section Verification

variable {c : Bytecode} {σ : Nat → Option (List Ty)} {o : Nat}

theorem VerifiedFrom.nil : VerifiedFrom c σ o [] := by
  intro item hitem
  exact absurd hitem List.not_mem_nil

theorem VerifiedFrom.append {a b : List Located} (ha : VerifiedFrom c σ o a)
    (hb : VerifiedFrom c σ (o + byteCount a) b) : VerifiedFrom c σ o (a ++ b) := by
  intro item hitem
  rw [decodeFrom_bytesOf_append] at hitem
  rcases List.mem_append.mp hitem with hitem | hitem
  · exact ha item hitem
  · exact hb item hitem

theorem VerifiedFrom.cons {l : Located} {code : List Located} {before after : List Ty}
    (hσ : σ o = some before) (he : StackEffect c l.instruction before after)
    (hs : ∀ x ∈ l.instruction.successors o, σ x = some after)
    (hcode : VerifiedFrom c σ (o + l.instruction.size) code) : VerifiedFrom c σ o (l :: code) := by
  intro item hitem
  rw [decodeFrom_bytesOf_cons] at hitem
  rcases List.mem_cons.mp hitem with rfl | hitem
  · exact ⟨l.instruction, before, after, rfl, hσ, he, hs⟩
  · exact hcode item hitem

/-- One operation without an operand, at the end of a piece of code. -/
theorem VerifiedFrom.simple {op : SimpleOp} {line : UInt32} {before after : List Ty}
    (hσ : σ o = some before) (he : StackEffect c (.simple op) before after)
    (hs : σ (o + 1) = some after) : VerifiedFrom c σ o [⟨.simple op, line⟩] := by
  refine .cons hσ he (fun x hx => ?_) .nil
  rw [List.mem_singleton.mp hx]
  exact hs

theorem Pushes.verifiedFrom {i : Instruction} {v : Value} {line : UInt32} {st : List Ty}
    (h : Pushes c.constants.toList i v) (hσ : σ o = some st)
    (hs : σ (o + i.size) = some (v.ty :: st)) : VerifiedFrom c σ o [⟨i, line⟩] := by
  cases h with
  | constant hx =>
    rw [Array.getElem?_toList] at hx
    refine .cons hσ (.pushConstant hx) (fun x hmem => ?_) .nil
    rw [List.mem_singleton.mp hmem]
    exact hs
  | true => exact .simple hσ .pushTrue hs
  | false => exact .simple hσ .pushFalse hs
  | unit => exact .simple hσ .pushUnit hs

theorem stackEffect_unary {op : UnaryOp} {ty : Ty} (h : ty = op.ty) (st : List Ty) :
    StackEffect c (.simple (.unary op)) (ty :: st) (op.ty :: st) := by
  rw [h]
  cases op with
  | neg => exact .negate
  | not => exact .not

/-- The verifier's rules for operators are the checker's. -/
theorem stackEffect_binary {op : BinaryOp} {left right ty : Ty} (h : op.apply left right = .ok ty)
    (st : List Ty) : StackEffect c (.simple (.binary op)) (right :: left :: st) (ty :: st) := by
  rcases apply_eq_ok_iff.mp h with ⟨hop, rfl, rfl, rfl⟩ | ⟨hop, rfl, rfl, rfl⟩ | ⟨hop, rfl, rfl⟩
  · exact .arithmetic hop
  · exact .ordering hop
  · exact .equality hop

theorem verified_of_leafScheme {pool pool' : List Value} {code : List Located}
    {v : Value} {line : UInt32} {st : List Ty}
    (h : leafScheme v.ty v line pool = .ok (code, pool')) (hp : pool' <+: c.constants.toList)
    (hσ : Agrees σ o code [st]) (hend : σ (o + byteCount code) = some (v.ty :: st)) :
    σ o = some st ∧ VerifiedFrom c σ o code := by
  obtain ⟨i, rfl, hi⟩ := leafScheme_ok h
  rw [byteCount_cons, byteCount_nil, Nat.add_zero] at hend
  exact ⟨hσ.1, (hi.mono hp).verifiedFrom hσ.1 hend⟩

/-- **The code of a tree is verified on every stack**, if its end has that stack with the type of
the tree on top; then its start has that stack. -/
theorem Typed.WellTyped.verified {lines : LineMap} {t : Typed} (ht : t.WellTyped) :
    ∀ {pool pool' : List Value} {code : List Located} {o : Nat} {st : List Ty},
      t.scheme lines pool = .ok (code, pool') → pool' <+: c.constants.toList →
      Agrees σ o code (t.stacks st) → σ (o + byteCount code) = some (t.ty :: st) →
      σ o = some st ∧ VerifiedFrom c σ o code := by
  induction ht with
  | constant =>
    intro pool pool' code o st h hp hσ hend
    exact verified_of_leafScheme h hp hσ hend
  | ident =>
    intro pool pool' code o st h hp hσ hend
    exact verified_of_leafScheme h hp hσ hend
  | unary ht hty ih =>
    intro pool pool' code o st h hp hσ hend
    obtain ⟨operand, he, rfl⟩ := scheme_unary_ok h
    obtain ⟨hσe, hop, -⟩ := hσ.append (ht.length_stacks st he)
    obtain ⟨start, verified⟩ := ih he hp hσe hop
    rw [byteCount_append, ← Nat.add_assoc] at hend
    exact ⟨start, verified.append (.simple hop (stackEffect_unary hty st) hend)⟩
  | @binary s op l r ty hl hr hty ihl ihr =>
    intro pool pool' code o st h hp hσ hend
    obtain ⟨left, p₁, right, hsl, hsr, rfl⟩ := scheme_binary_ok h
    have hp₁ := (Typed.scheme_grows hsr).trans hp
    obtain ⟨hσl, hσr⟩ := hσ.append (hl.length_stacks st hsl)
    obtain ⟨hσr, hop, -⟩ := hσr.append (hr.length_stacks (l.ty :: st) hsr)
    obtain ⟨middle, right_verified⟩ := ihr hsr hp hσr hop
    obtain ⟨start, left_verified⟩ := ihl hsl hp₁ hσl middle
    rw [byteCount_append, byteCount_append, ← Nat.add_assoc, ← Nat.add_assoc] at hend
    exact ⟨start, left_verified.append
      (right_verified.append (.simple hop (stackEffect_binary hty st) hend))⟩
  | @cond s e a b he ha hb hbool hty ihe iha ihb =>
    intro pool pool' code o st h hp hσ hend
    obtain ⟨test, p₁, yes, p₂, no, toElse, toEnd, hse, hsa, hsb, hElse, hEnd, rfl⟩ :=
      scheme_cond_ok h
    have hp₂ := (Typed.scheme_grows hsb).trans hp
    have hp₁ := (Typed.scheme_grows hsa).trans hp₂
    obtain ⟨hσe, hjif, hσrest⟩ := hσ.append (he.length_stacks st hse)
    obtain ⟨hσa, hjmp, hσb⟩ := hσrest.append (ha.length_stacks st hsa)
    simp only [size_withOperand] at hσa hjmp hσb
    rw [add_byteCount_cond] at hend
    -- both branches end on one stack: the second one falls through to it, the first one jumps there
    obtain ⟨elseStart, no_verified⟩ := ihb hsb hp hσb (hty ▸ hend)
    obtain ⟨thenStart, yes_verified⟩ := iha hsa hp₂ hσa hjmp
    obtain ⟨start, test_verified⟩ := ihe hse hp₁ hσe hjif
    have jif : StackEffect c (.withOperand .jumpIfFalse toElse) (e.ty :: st) st := by
      rw [hbool]
      exact .jumpIfFalse
    have branches : ∀ x ∈ (Instruction.withOperand .jumpIfFalse toElse).successors
        (o + byteCount test), σ x = some st := by
      intro x hx
      rw [successors_jumpIfFalse, hElse, ← Nat.add_assoc] at hx
      simp only [List.mem_cons, List.not_mem_nil, or_false] at hx
      rcases hx with rfl | rfl
      · exact thenStart
      · exact elseStart
    have join : ∀ x ∈ (Instruction.withOperand .jump toEnd).successors
        (o + byteCount test + 2 + byteCount yes), σ x = some (a.ty :: st) := by
      intro x hx
      rw [successors_jump, hEnd] at hx
      rw [List.mem_singleton.mp hx]
      exact hend
    exact ⟨start, test_verified.append
      (.cons hjif jif branches (yes_verified.append (.cons hjmp .jump join no_verified)))⟩

theorem Typed.WellTypedStatement.verified {lines : LineMap} {pool pool' : List Value}
    {code : List Located} {t : Typed} (ht : t.WellTypedStatement)
    (h : t.scheme lines pool = .ok (code, pool')) (hp : pool' <+: c.constants.toList)
    (hσ : Agrees σ o code (t.stacks [])) (hend : σ (o + byteCount code) = some t.leaves) :
    σ o = some [] ∧ VerifiedFrom c σ o code := by
  cases ht with
  | expression ht =>
    rw [ht.leaves] at hend
    exact ht.verified h hp hσ hend
  | definition =>
    obtain rfl := scheme_define_ok h
    exact ⟨hend, .nil⟩

/-- Between two statements the stack becomes empty. -/
theorem verified_discardCode {lines : LineMap} {t : Typed}
    (hσ : Agrees σ o (discardCode lines t) t.discardStacks)
    (hend : σ (o + byteCount (discardCode lines t)) = some []) :
    σ o = some t.leaves ∧ VerifiedFrom c σ o (discardCode lines t) := by
  rw [discardCode, Typed.discardStacks] at hσ
  rw [discardCode] at hend ⊢
  rw [Typed.leaves] at hσ ⊢
  cases hd : t.isDefinition with
  | true =>
    rw [hd] at hend
    exact ⟨hend, .nil⟩
  | false =>
    rw [hd] at hσ hend
    exact ⟨hσ.1, .simple hσ.1 .pop hend⟩

/-- **The code of a program is verified**: it begins on the empty stack if it ends on its exit
stack. -/
theorem verified_of_schemeAll {lines : LineMap} : ∀ {ts : List Typed} {pool pool' : List Value}
    {code : List Located} {o : Nat}, (∀ t ∈ ts, t.WellTypedStatement) →
    schemeAll lines ts pool = .ok (code, pool') → pool' <+: c.constants.toList →
    Agrees σ o code (stacksAll ts) → σ (o + byteCount code) = some (exitStack ts) →
    σ o = some [] ∧ VerifiedFrom c σ o code
  | [], pool, pool', code, o, _, h, _, _, hend => by
    obtain rfl := schemeAll_nil_ok h
    exact ⟨hend, .nil⟩
  | [t], pool, pool', code, o, ht, h, hp, hσ, hend =>
    (ht t (List.mem_singleton_self t)).verified h hp hσ hend
  | t :: u :: ts, pool, pool', code, o, ht, h, hp, hσ, hend => by
    obtain ⟨first, p₁, rest, hfirst, hrest, rfl⟩ := schemeAll_cons_ok h
    obtain ⟨first_wt, rest_wt⟩ := List.forall_mem_cons.mp ht
    have hp₁ := (schemeAll_grows hrest).trans hp
    obtain ⟨hσfirst, hσrest⟩ := hσ.append (first_wt.length_stacks hfirst)
    obtain ⟨hσdiscard, hσrest⟩ := hσrest.append (length_discardStacks lines t)
    rw [byteCount_append, byteCount_append, ← Nat.add_assoc, ← Nat.add_assoc,
      exitStack_cons_cons] at hend
    -- backwards from the end: each piece ends where the next one begins
    obtain ⟨afterDiscard, rest_verified⟩ := verified_of_schemeAll rest_wt hrest hp hσrest hend
    obtain ⟨afterFirst, discard_verified⟩ := verified_discardCode hσdiscard afterDiscard
    obtain ⟨start, first_verified⟩ := first_wt.verified hfirst hp₁ hσfirst afterFirst
    exact ⟨start, first_verified.append (discard_verified.append rest_verified)⟩

end Verification

/-! ## 5. Sessions -/

/-- **The stacks that are read off the trees type the code.** -/
theorem stackTyping_of_ofProgram {lines : LineMap} {ts : List Typed} {c : Bytecode}
    (ht : ∀ t ∈ ts, t.WellTypedStatement) (h : Bytecode.ofProgram lines ts = .ok c) :
    ∃ code, c.StackTyping (assignment (exitStack ts) 0 code (stacksAll ts)) (exitStack ts) := by
  obtain ⟨code, hscheme, hbytes, -⟩ := scheme_of_ofProgram h
  have size : c.size = 0 + byteCount code := by
    rw [Nat.zero_add, Bytecode.size_eq_byteCount hbytes]
  have items : c.items = decodeFrom 0 (bytesOf code) := by rw [Bytecode.items, hbytes]
  have hlen := length_stacksAll ht hscheme
  obtain ⟨agrees, atEnd⟩ := assignment_agrees (exitStack ts) 0 hlen
  obtain ⟨entry, verified⟩ := verified_of_schemeAll ht hscheme (List.prefix_refl _) agrees atEnd
  refine ⟨code, ?_, entry, ?_, ?_⟩
  · intro o
    rw [size, items]
    exact isSome_assignment (exitStack ts) o 0 hlen
  · rw [size]
    exact atEnd
  · rw [items]
    exact verified

theorem exists_stackTyping {lines : LineMap} {ts : List Typed} {c : Bytecode}
    (ht : ∀ t ∈ ts, t.WellTypedStatement) (h : Bytecode.ofProgram lines ts = .ok c) :
    ∃ σ, c.StackTyping σ (exitStack ts) := by
  obtain ⟨code, typing⟩ := stackTyping_of_ofProgram ht h
  exact ⟨_, typing⟩

/-- **Generated code passes the verifier.**  Whatever a reachable session's check delivers, the code
that any session generates for it has one stack of types for each place: empty at the start, at the
end the type of the last statement or, behind a definition, nothing. -/
theorem Session.generated_code_is_stack_typed {s : Session} (hs : s.Reachable) {ts : List Typed}
    (hd : s.Delivers ts) (g : Session) {ty : Ty} {c : Bytecode}
    (h : g.generateProgram ts = .ok (ty, c)) : ∃ σ, c.StackTyping σ (exitStack ts) := by
  obtain ⟨c', hc', heq⟩ := map_eq_ok.mp h
  rw [Prod.mk.injEq] at heq
  obtain ⟨-, rfl⟩ := heq
  exact exists_stackTyping (hd.wellTyped hs) hc'

/-- `"a"; x + (if true then x else x * x)` with `x` bound to zero: an `if` below a pending operand,
with a branch that no run takes. -/
theorem Session.generated_code_is_stack_typed_dead_branch :
    let x := Expr.ident .zero "x"
    let es := [.literal .zero (.str "a"), Expr.binary .zero .add x
      (.cond .zero (.literal .zero (.bool true)) x (.binary .zero .mul x x))]
    let n : NodeInfo := ⟨.number, .zero⟩
    let t := Typed.ident n "x" (some (.number ⟨0⟩))
    let ts := [.constant ⟨.string, .zero⟩ (.str "a"), Typed.binary n .add t
      (.cond n (.constant ⟨.bool, .zero⟩ (.bool true)) t (.binary n .mul t t))]
    let s := (new none .forbid).run [.define "x" (.number ⟨0⟩)]
    s.checkProgram es = (.ok ts, s) ∧
      ∃ c σ, s.generateProgram ts = .ok (.number, c) ∧ c.StackTyping σ [.number] := by
  intro x es n t ts s
  have reachable : s.Reachable := ⟨none, .forbid, [.define "x" (.number ⟨0⟩)], rfl⟩
  have checked : s.checkProgram es = (.ok ts, s) := rfl
  obtain ⟨c, generated⟩ : ∃ c, s.generateProgram ts = .ok (.number, c) := ⟨_, by cbv⟩
  obtain ⟨σ, typing⟩ :=
    generated_code_is_stack_typed reachable (Or.inl ⟨es, s, checked⟩) s generated
  exact ⟨checked, c, σ, generated, typing⟩

end ExprLang
