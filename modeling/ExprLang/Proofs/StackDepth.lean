/-
# How deep the stack gets

Code says how many values its stack holds at most (`Bytecode.maxStack`), and a machine makes room
for that many.  The generator finds the number by counting while it writes; this module says that
**the number is exact**: no path through the code needs more room, and some path needs all of it.

A path follows the code from its start and takes either way at a conditional jump, whatever the
condition is.  `Bytecode.Reaches` counts the values along it.  Three facts make up the result.

* The depth at a place is the height of its stack of types (`Bytecode.Reaches.height`), and the
  heights are bounded by what the trees need (`height_le_needOf`).  So no path goes higher.
* The code of a tree has a path that climbs as high as the tree needs (`Typed.WellTyped.climbs`).
* The generator counts what the tree needs (`Typed.WellTyped.maxStack_emit`).

In the compiler it is counted by `push_stack` and `pop_stack`.
-/
import ExprLang.Proofs.Contract
import ExprLang.Proofs.StackTypes

namespace ExprLang

/-! ## 1. Paths -/

/-- The number of values that an instruction takes off the stack. -/
def Instruction.pops : Instruction → Nat
  | .simple .pushTrue | .simple .pushFalse | .simple .pushUnit => 0
  | .simple .pop | .simple (.unary _) => 1
  | .simple (.binary _) => 2
  | .withOperand .pushConstant _ | .withOperand .jump _ => 0
  | .withOperand .jumpIfFalse _ => 1

/-- The number of values that it puts there afterwards. -/
def Instruction.pushes : Instruction → Nat
  | .simple .pop | .withOperand .jump _ | .withOperand .jumpIfFalse _ => 0
  | _ => 1

/-- `c.Reaches o d`: some path from the start of the code comes to the offset `o` with `d` values on
the stack. -/
inductive Bytecode.Reaches (c : Bytecode) : Nat → Nat → Prop where
  | start : c.Reaches 0 0
  | step {o o' d : Nat} {i : Instruction} : c.Reaches o d → ⟨o, .ok i⟩ ∈ c.items → i.pops ≤ d →
      o' ∈ i.successors o → c.Reaches o' (d - i.pops + i.pushes)

/-- `c.MaxStackIs n`: the depth that the code states is `n`, every path keeps to it and some path
gets there.  No path ends for want of operands, so the bound is about whole paths. -/
structure Bytecode.MaxStackIs (c : Bytecode) (n : Nat) : Prop where
  stated : c.maxStack = n
  bound : ∀ o d, c.Reaches o d → d ≤ c.maxStack
  attained : ∃ o, c.Reaches o c.maxStack
  supplied : ∀ o d, c.Reaches o d → o = c.size ∨ ∃ i, ⟨o, .ok i⟩ ∈ c.items ∧ i.pops ≤ d

/-! ## 2. What a tree needs -/

/-- The number of values that the code of a tree has on the stack at most.  The left operand of an
operator waits on the stack while the right one is computed; of an `if`, one part is computed at a
time. -/
def Typed.need : Typed → Nat
  | .constant .. | .ident .. => 1
  | .unary _ _ e => e.need
  | .binary _ _ l r => max l.need (1 + r.need)
  | .cond _ c a b => max c.need (max a.need b.need)
  | .lambda _ | .define .. => 0

/-- The greatest need of the statements that are no definitions. -/
def needOf (ts : List Typed) : Nat :=
  ((ts.filter fun t => !t.isDefinition).map Typed.need).foldr max 0

theorem needOf_cons_definition {t : Typed} (ts : List Typed) (h : t.isDefinition = true) :
    needOf (t :: ts) = needOf ts := by
  simp [needOf, h]

theorem needOf_cons_expression {t : Typed} (ts : List Typed) (h : t.isDefinition = false) :
    needOf (t :: ts) = max t.need (needOf ts) := by
  simp [needOf, h]

theorem needOf_le_cons (t : Typed) (ts : List Typed) : needOf ts ≤ needOf (t :: ts) := by
  cases h : t.isDefinition with
  | true => exact Nat.le_of_eq (needOf_cons_definition ts h).symm
  | false =>
    rw [needOf_cons_expression ts h]
    exact Nat.le_max_right _ _

theorem Typed.WellTyped.need_le_needOf {t : Typed} (ht : t.WellTyped) (ts : List Typed) :
    t.need ≤ needOf (t :: ts) := by
  rw [needOf_cons_expression ts ht.isDefinition]
  exact Nat.le_max_left _ _

/-- Every expression needs room for its value. -/
theorem Typed.WellTyped.need_pos {t : Typed} (ht : t.WellTyped) : 1 ≤ t.need := by
  induction ht with
  | constant => exact Nat.le_refl 1
  | ident => exact Nat.le_refl 1
  | unary _ _ ih => exact ih
  | binary _ _ _ ihl _ => exact Nat.le_trans ihl (Nat.le_max_left _ _)
  | cond _ _ _ _ _ ihc _ _ => exact Nat.le_trans ihc (Nat.le_max_left _ _)

/-! ## 3. No path goes higher -/

section Bound

variable {c : Bytecode}

theorem StackEffect.height {i : Instruction} {before after : List Ty}
    (h : StackEffect c i before after) :
    i.pops ≤ before.length ∧ after.length = before.length - i.pops + i.pushes := by
  cases h <;> simp [Instruction.pops, Instruction.pushes]

/-- **All paths to a place come with one depth**, the height of the stack of types there. -/
theorem Bytecode.Reaches.height {σ : Nat → Option (List Ty)} {exit : List Ty}
    (hσ : c.StackTyping σ exit) {o d : Nat} (h : c.Reaches o d) :
    ∃ st, σ o = some st ∧ st.length = d := by
  induction h with
  | start => exact ⟨[], hσ.entry, rfl⟩
  | @step o o' d i _ hitem _ ho' ih =>
    obtain ⟨st, hst, rfl⟩ := ih
    obtain ⟨j, before, after, hj, hbefore, effect, successors⟩ := hσ.items _ hitem
    obtain rfl : i = j := Except.ok.inj hj
    obtain rfl : st = before := Option.some.inj (hst.symm.trans hbefore)
    exact ⟨after, successors o' ho', effect.height.2⟩

/-- A path that is not at the end finds an instruction, and the operands that it takes. -/
theorem Bytecode.Reaches.supplied {σ : Nat → Option (List Ty)} {exit : List Ty}
    (hσ : c.StackTyping σ exit) {o d : Nat} (h : c.Reaches o d) :
    o = c.size ∨ ∃ i, ⟨o, .ok i⟩ ∈ c.items ∧ i.pops ≤ d := by
  obtain ⟨st, hst, rfl⟩ := h.height hσ
  rcases (hσ.domain o).mp (by rw [hst]; rfl) with hend | ⟨item, hitem, rfl⟩
  · exact Or.inl hend
  · obtain ⟨i, before, after, hi, hbefore, effect, -⟩ := hσ.items item hitem
    obtain rfl : st = before := Option.some.inj (hst.symm.trans hbefore)
    refine Or.inr ⟨i, ?_, effect.height.1⟩
    rw [← hi]
    exact hitem

end Bound

/-- The stacks along the code of a tree are at most as high as the tree needs. -/
theorem Typed.WellTyped.length_le_of_mem_stacks {t : Typed} (ht : t.WellTyped) :
    ∀ {st u : List Ty}, u ∈ t.stacks st → u.length ≤ st.length + t.need := by
  induction ht with
  | constant =>
    intro st u hu
    rw [List.mem_singleton.mp hu]
    exact Nat.le_add_right _ _
  | ident =>
    intro st u hu
    rw [List.mem_singleton.mp hu]
    exact Nat.le_add_right _ _
  | unary he _ ih =>
    intro st u hu
    rcases List.mem_append.mp hu with hu | hu
    · exact ih hu
    · rw [List.mem_singleton.mp hu]
      exact Nat.add_le_add_left he.need_pos _
  | binary hl hr _ ihl ihr =>
    intro st u hu
    have hpos := hr.need_pos
    simp only [Typed.stacks, List.mem_append, List.mem_singleton] at hu
    simp only [Typed.need]
    rcases hu with hu | hu | rfl
    · have := ihl hu
      omega
    · have := ihr hu
      simp only [List.length_cons] at this
      omega
    · simp only [List.length_cons]
      omega
  | cond hc ha _ _ _ ihc iha ihb =>
    intro st u hu
    have hcpos := hc.need_pos
    have hapos := ha.need_pos
    simp only [Typed.stacks, List.mem_append, List.mem_cons] at hu
    simp only [Typed.need]
    rcases hu with hu | rfl | hu | rfl | hu
    · have := ihc hu
      omega
    · simp only [List.length_cons]
      omega
    · have := iha hu
      omega
    · simp only [List.length_cons]
      omega
    · have := ihb hu
      omega

theorem Typed.WellTypedStatement.length_le_of_mem_stacks {t : Typed} (ht : t.WellTypedStatement)
    (ts : List Typed) {u : List Ty} (hu : u ∈ t.stacks []) : u.length ≤ needOf (t :: ts) := by
  cases ht with
  | expression ht =>
    have h := ht.length_le_of_mem_stacks hu
    rw [List.length_nil, Nat.zero_add] at h
    exact Nat.le_trans h (ht.need_le_needOf ts)
  | definition => exact absurd hu List.not_mem_nil

/-- What a statement leaves is part of what it needs. -/
theorem Typed.WellTypedStatement.length_leaves_le {t : Typed} (ht : t.WellTypedStatement)
    (ts : List Typed) : t.leaves.length ≤ needOf (t :: ts) := by
  cases ht with
  | expression ht =>
    rw [ht.leaves]
    exact Nat.le_trans ht.need_pos (ht.need_le_needOf ts)
  | definition => exact Nat.zero_le _

theorem Typed.WellTypedStatement.length_le_of_mem_discardStacks {t : Typed}
    (ht : t.WellTypedStatement) (ts : List Typed) {u : List Ty} (hu : u ∈ t.discardStacks) :
    u.length ≤ needOf (t :: ts) := by
  rw [Typed.discardStacks] at hu
  split at hu
  · exact absurd hu List.not_mem_nil
  · rw [List.mem_singleton.mp hu]
    exact ht.length_leaves_le ts

theorem length_le_of_mem_stacksAll : ∀ {ts : List Typed}, (∀ t ∈ ts, t.WellTypedStatement) →
    ∀ {u : List Ty}, u ∈ stacksAll ts → u.length ≤ needOf ts
  | [], _, u, hu => absurd hu List.not_mem_nil
  | [t], ht, u, hu => (ht t (List.mem_singleton_self t)).length_le_of_mem_stacks [] hu
  | t :: v :: ts, ht, u, hu => by
    obtain ⟨first_wt, rest_wt⟩ := List.forall_mem_cons.mp ht
    simp only [stacksAll, List.mem_append] at hu
    rcases hu with hu | hu | hu
    · exact first_wt.length_le_of_mem_stacks _ hu
    · exact first_wt.length_le_of_mem_discardStacks _ hu
    · exact Nat.le_trans (length_le_of_mem_stacksAll rest_wt hu) (needOf_le_cons t _)

theorem length_exitStack_le : ∀ {ts : List Typed}, (∀ t ∈ ts, t.WellTypedStatement) →
    (exitStack ts).length ≤ needOf ts
  | [], _ => Nat.le_refl 0
  | [t], ht => (ht t (List.mem_singleton_self t)).length_leaves_le []
  | t :: v :: ts, ht => by
    rw [exitStack_cons_cons]
    exact Nat.le_trans (length_exitStack_le fun u hu => ht u (List.mem_cons_of_mem t hu))
      (needOf_le_cons t _)

/-- An assignment gives no stacks but those that it is made of. -/
theorem mem_of_assignment {exit : List Ty} {x : Nat} {u : List Ty} :
    ∀ {code : List Located} {sts : List (List Ty)} {o : Nat},
      assignment exit o code sts x = some u → u = exit ∨ u ∈ sts
  | l :: code, st :: sts, o, h => by
    rw [assignment] at h
    split at h
    · exact Or.inr (Option.some.inj h ▸ List.mem_cons_self)
    · rcases mem_of_assignment h with hu | hu
      · exact Or.inl hu
      · exact Or.inr (List.mem_cons_of_mem st hu)
  | [], sts, o, h => by
    simp only [assignment, Option.ite_none_right_eq_some, Option.some.injEq] at h
    exact Or.inl h.2.symm
  | l :: code, [], o, h => by
    simp only [assignment, Option.ite_none_right_eq_some, Option.some.injEq] at h
    exact Or.inl h.2.symm

/-- **No place of the code has a higher stack than the trees need.** -/
theorem height_le_needOf {ts : List Typed} (ht : ∀ t ∈ ts, t.WellTypedStatement)
    {code : List Located} {x : Nat} {u : List Ty}
    (h : assignment (exitStack ts) 0 code (stacksAll ts) x = some u) : u.length ≤ needOf ts := by
  rcases mem_of_assignment h with rfl | hu
  · exact length_exitStack_le ht
  · exact length_le_of_mem_stacksAll ht hu

/-! ## 4. Some path goes as high -/

/-- `c.ItemsAt o code`: the instructions of `code` are items of `c`, from the offset `o` on. -/
def Bytecode.ItemsAt (c : Bytecode) (o : Nat) (code : List Located) : Prop :=
  ∀ item ∈ decodeFrom o (bytesOf code), item ∈ c.items

section Climb

variable {c : Bytecode} {o d : Nat}

theorem Bytecode.itemsAt_append {a b : List Located} :
    c.ItemsAt o (a ++ b) ↔ c.ItemsAt o a ∧ c.ItemsAt (o + byteCount a) b := by
  simp only [ItemsAt, decodeFrom_bytesOf_append, List.mem_append, or_imp, forall_and]

theorem Bytecode.itemsAt_cons {l : Located} {code : List Located} :
    c.ItemsAt o (l :: code) ↔
      ⟨o, .ok l.instruction⟩ ∈ c.items ∧ c.ItemsAt (o + l.instruction.size) code := by
  simp only [ItemsAt, decodeFrom_bytesOf_cons, List.forall_mem_cons]

/-- A path goes on over an instruction without a jump. -/
theorem Bytecode.Reaches.simple {op : SimpleOp} {line : UInt32} {code : List Located} {d' : Nat}
    (h : c.Reaches o d) (hc : c.ItemsAt o (⟨.simple op, line⟩ :: code))
    (hpops : (Instruction.simple op).pops ≤ d)
    (hd : d - (Instruction.simple op).pops + (Instruction.simple op).pushes = d') :
    c.Reaches (o + 1) d' :=
  hd ▸ h.step (itemsAt_cons.mp hc).1 hpops List.mem_cons_self

theorem Pushes.reaches {pool : List Value} {i : Instruction} {v : Value} (hi : Pushes pool i v)
    (hitem : ⟨o, .ok i⟩ ∈ c.items) (h : c.Reaches o d) : c.Reaches (o + i.size) (d + 1) := by
  cases hi with
  | constant => exact h.step hitem (Nat.zero_le d) List.mem_cons_self
  | true => exact h.step hitem (Nat.zero_le d) List.mem_cons_self
  | false => exact h.step hitem (Nat.zero_le d) List.mem_cons_self
  | unit => exact h.step hitem (Nat.zero_le d) List.mem_cons_self

theorem reaches_of_leafScheme {pool pool' : List Value} {code : List Located} {v : Value}
    {line : UInt32} (hs : leafScheme v.ty v line pool = .ok (code, pool')) (hc : c.ItemsAt o code)
    (h : c.Reaches o d) : c.Reaches (o + byteCount code) (d + 1) := by
  obtain ⟨i, rfl, hi⟩ := leafScheme_ok hs
  rw [byteCount_cons, byteCount_nil, Nat.add_zero]
  exact hi.reaches (Bytecode.itemsAt_cons.mp hc).1 h

/-- **A path through the code of a tree comes to its end with one value more, and some path climbs
as high as the tree needs.**  In an `if` the higher branch decides; a path may enter either. -/
theorem Typed.WellTyped.climbs {lines : LineMap} {t : Typed} (ht : t.WellTyped) :
    ∀ {pool pool' : List Value} {code : List Located} {o d : Nat},
      t.scheme lines pool = .ok (code, pool') → c.ItemsAt o code → c.Reaches o d →
      c.Reaches (o + byteCount code) (d + 1) ∧ ∃ o', c.Reaches o' (d + t.need) := by
  induction ht with
  | constant =>
    intro pool pool' code o d hs hc h
    have stop := reaches_of_leafScheme hs hc h
    exact ⟨stop, _, stop⟩
  | ident =>
    intro pool pool' code o d hs hc h
    have stop := reaches_of_leafScheme hs hc h
    exact ⟨stop, _, stop⟩
  | unary _ _ ih =>
    intro pool pool' code o d hs hc h
    obtain ⟨operand, he, rfl⟩ := scheme_unary_ok hs
    obtain ⟨hce, hop⟩ := Bytecode.itemsAt_append.mp hc
    obtain ⟨stop, peak⟩ := ih he hce h
    rw [byteCount_append, ← Nat.add_assoc]
    exact ⟨stop.simple hop (Nat.le_add_left 1 d) rfl, peak⟩
  | @binary s op l r ty _ _ _ ihl ihr =>
    intro pool pool' code o d hs hc h
    obtain ⟨left, p₁, right, hl, hr, rfl⟩ := scheme_binary_ok hs
    obtain ⟨hcl, hcr⟩ := Bytecode.itemsAt_append.mp hc
    obtain ⟨hcr, hop⟩ := Bytecode.itemsAt_append.mp hcr
    obtain ⟨leftStop, leftPeak, hleft⟩ := ihl hl hcl h
    obtain ⟨rightStop, rightPeak, hright⟩ := ihr hr hcr leftStop
    rw [byteCount_append, byteCount_append, ← Nat.add_assoc, ← Nat.add_assoc]
    refine ⟨rightStop.simple hop (Nat.le_add_left 2 d) rfl, ?_⟩
    rw [Typed.need]
    rcases Nat.le_total l.need (1 + r.need) with hle | hle
    · rw [Nat.max_eq_right hle, ← Nat.add_assoc]
      exact ⟨rightPeak, hright⟩
    · rw [Nat.max_eq_left hle]
      exact ⟨leftPeak, hleft⟩
  | @cond s e a b _ _ _ _ _ ihe iha ihb =>
    intro pool pool' code o d hs hc h
    obtain ⟨test, p₁, yes, p₂, no, toElse, toEnd, hse, hsa, hsb, hElse, -, rfl⟩ := scheme_cond_ok hs
    obtain ⟨hce, hc⟩ := Bytecode.itemsAt_append.mp hc
    obtain ⟨hjif, hc⟩ := Bytecode.itemsAt_cons.mp hc
    obtain ⟨hca, hc⟩ := Bytecode.itemsAt_append.mp hc
    obtain ⟨-, hcb⟩ := Bytecode.itemsAt_cons.mp hc
    obtain ⟨testStop, testPeak, htest⟩ := ihe hse hce h
    -- both ways from the conditional jump, each with the condition taken off
    have thenStart : c.Reaches (o + byteCount test + 2) d :=
      testStop.step hjif (Nat.le_add_left 1 d) (by simp)
    have elseStart : c.Reaches (o + byteCount test + 2 + byteCount yes + 2) d := by
      refine testStop.step hjif (Nat.le_add_left 1 d) ?_
      rw [successors_jumpIfFalse, hElse, ← Nat.add_assoc]
      exact List.mem_cons_of_mem _ List.mem_cons_self
    obtain ⟨-, thenPeak, hthen⟩ := iha hsa hca thenStart
    obtain ⟨elseStop, elsePeak, helse⟩ := ihb hsb hcb elseStart
    rw [add_byteCount_cond]
    refine ⟨elseStop, ?_⟩
    have highest : max e.need (max a.need b.need) = e.need ∨
        max e.need (max a.need b.need) = a.need ∨ max e.need (max a.need b.need) = b.need := by
      omega
    rw [Typed.need]
    rcases highest with heq | heq | heq
    · rw [heq]
      exact ⟨testPeak, htest⟩
    · rw [heq]
      exact ⟨thenPeak, hthen⟩
    · rw [heq]
      exact ⟨elsePeak, helse⟩

/-- Behind a statement and the code that drops its value the stack is empty again. -/
theorem Typed.WellTypedStatement.reaches_discarded {lines : LineMap} {t : Typed}
    (ht : t.WellTypedStatement) {pool pool' : List Value} {code : List Located}
    (hs : t.scheme lines pool = .ok (code, pool')) (hc : c.ItemsAt o code)
    (hdiscard : c.ItemsAt (o + byteCount code) (discardCode lines t)) (h : c.Reaches o 0) :
    c.Reaches (o + byteCount code + byteCount (discardCode lines t)) 0 := by
  cases ht with
  | expression ht =>
    rw [discardCode, ht.isDefinition] at hdiscard ⊢
    exact (ht.climbs hs hc h).1.simple hdiscard (Nat.le_refl 1) rfl
  | definition =>
    obtain rfl := scheme_define_ok hs
    exact h

/-- **Some path through a program climbs as high as its statements need.** -/
theorem exists_reaches_needOf {lines : LineMap} : ∀ {ts : List Typed} {pool pool' : List Value}
    {code : List Located} {o : Nat}, (∀ t ∈ ts, t.WellTypedStatement) →
    schemeAll lines ts pool = .ok (code, pool') → c.ItemsAt o code → c.Reaches o 0 →
    ∃ o', c.Reaches o' (needOf ts)
  | [], pool, pool', code, o, _, _, _, h => ⟨o, h⟩
  | [t], pool, pool', code, o, ht, hs, hc, h => by
    cases ht t (List.mem_singleton_self t) with
    | expression ht =>
      obtain ⟨-, o', peak⟩ := ht.climbs hs hc h
      rw [Nat.zero_add] at peak
      rw [needOf_cons_expression [] ht.isDefinition]
      exact ⟨o', (Nat.max_eq_left (Nat.zero_le t.need)).symm ▸ peak⟩
    | definition => exact ⟨o, h⟩
  | t :: u :: ts, pool, pool', code, o, ht, hs, hc, h => by
    obtain ⟨first, p₁, rest, hfirst, hrest, rfl⟩ := schemeAll_cons_ok hs
    obtain ⟨first_wt, rest_wt⟩ := List.forall_mem_cons.mp ht
    obtain ⟨hcfirst, hc⟩ := Bytecode.itemsAt_append.mp hc
    obtain ⟨hcdiscard, hcrest⟩ := Bytecode.itemsAt_append.mp hc
    have next := first_wt.reaches_discarded hfirst hcfirst hcdiscard h
    obtain ⟨restPeak, hpeak⟩ := exists_reaches_needOf rest_wt hrest hcrest next
    cases hd : t.isDefinition with
    | true =>
      rw [needOf_cons_definition _ hd]
      exact ⟨restPeak, hpeak⟩
    | false =>
      rw [needOf_cons_expression _ hd]
      rcases Nat.le_total t.need (needOf (u :: ts)) with hle | hle
      · rw [Nat.max_eq_right hle]
        exact ⟨restPeak, hpeak⟩
      · rw [Nat.max_eq_left hle, ← Nat.zero_add t.need]
        exact ((first_wt.wellTyped hd).climbs hfirst hcfirst h).2

end Climb

/-! ## 5. What the generator counts -/

namespace Emitter

variable {g g' : Emitter}

theorem maxStack_write (g : Emitter) (op : SimpleOp) (line : UInt32) :
    (g.write op line).code.maxStack = g.code.maxStack := rfl

theorem writeJump_ok {op : OperandOp} {line : UInt32} (h : g.writeJump op line = .ok g') :
    g'.code.maxStack = g.code.maxStack ∧ g'.depth = g.depth := by
  obtain ⟨-, -, hg'⟩ := bind_eq_ok.mp h
  rw [← Except.ok.inj hg']
  exact ⟨rfl, rfl⟩

theorem pop_ok (h : g.pop = .ok g') : g'.code = g.code ∧ g'.depth = g.depth - 1 := by
  rw [pop] at h
  split at h
  · simp at h
  · rw [Except.ok.injEq] at h
    rw [← h]
    exact ⟨rfl, rfl⟩

theorem land_ok {index : Nat} (h : g.land index = .ok g') :
    g'.code.maxStack = g.code.maxStack ∧ g'.depth = g.depth := by
  rcases g.land_cases index with ⟨-, hland⟩ | ⟨-, ⟨-, hland⟩ | ⟨-, code, hp, hland⟩⟩
  · simp [hland] at h
  · simp [hland] at h
  · obtain ⟨-, -, -, -, maxStack⟩ := Bytecode.patch?_eq_some_iff.mp hp
    rw [← Except.ok.inj (hland.symm.trans h)]
    exact ⟨maxStack, rfl⟩

theorem maxStack_writeConstant {v : Value} {line : UInt32} (h : g.writeConstant v line = .ok g') :
    g'.code.maxStack = g.code.maxStack ∧ g'.depth = g.depth := by
  rw [writeConstant, addConstant_eq] at h
  cases hi : intern g.code.constants.toList v with
  | none => simp [hi] at h
  | some p =>
    rw [hi, Option.elim_some, Except.ok.injEq] at h
    rw [← h]
    exact ⟨rfl, rfl⟩

/-- A leaf counts one value. -/
theorem maxStack_pushValue {ty : Ty} {v : Value} {line : UInt32}
    (h : g.pushValue ty v line = .ok g') :
    g'.code.maxStack = max g.code.maxStack (g.depth + 1) := by
  have constant : ∀ {g' : Emitter}, (g.writeConstant v line).map push = .ok g' →
      g'.code.maxStack = max g.code.maxStack (g.depth + 1) := by
    intro g' h
    obtain ⟨g₁, hg₁, rfl⟩ := map_eq_ok.mp h
    obtain ⟨hmax, hdepth⟩ := maxStack_writeConstant hg₁
    rw [push, hmax, hdepth]
  cases ty with
  | number => exact constant h
  | string => exact constant h
  | bool => rw [← Except.ok.inj h]; rfl
  | unit => rw [← Except.ok.inj h]; rfl
  | error => simp [pushValue] at h

end Emitter

/-- The depth after the code of a well-typed expression. -/
theorem Typed.WellTyped.depth_emit {lines : LineMap} {t : Typed} (ht : t.WellTyped) {g g' : Emitter}
    (h : t.emit lines g = .ok g') : g'.depth = g.depth + 1 := by
  have settles := ht.emit_settles lines g
  rw [h] at settles
  exact settles.2

/-- **The generator counts what the tree needs**, on top of the values that are there already. -/
theorem Typed.WellTyped.maxStack_emit {lines : LineMap} {t : Typed} (ht : t.WellTyped) :
    ∀ {g g' : Emitter}, t.emit lines g = .ok g' →
      g'.code.maxStack = max g.code.maxStack (g.depth + t.need) := by
  induction ht with
  | constant =>
    intro g g' h
    exact Emitter.maxStack_pushValue h
  | ident =>
    intro g g' h
    obtain ⟨-, -, h⟩ := bind_eq_ok.mp h
    exact Emitter.maxStack_pushValue h
  | unary _ _ ih =>
    intro g g' h
    simp only [Typed.emit, bind_eq_ok, pure_eq, Except.ok.injEq] at h
    obtain ⟨-, -, g₁, h₁, rfl⟩ := h
    rw [Emitter.maxStack_write]
    exact ih h₁
  | @binary s op l r ty hl _ _ ihl ihr =>
    intro g g' h
    simp only [Typed.emit, bind_eq_ok, pure_eq, Except.ok.injEq] at h
    obtain ⟨-, -, g₁, h₁, g₂, h₂, g₃, h₃, rfl⟩ := h
    have counted : g₃.code.maxStack =
        max (max g.code.maxStack (g.depth + l.need)) (g.depth + 1 + r.need) := by
      rw [(Emitter.pop_ok h₃).1, ihr h₂, ihl h₁, hl.depth_emit h₁]
    rw [Emitter.maxStack_write, Typed.need]
    omega
  | @cond s e a b he ha hb _ _ ihe iha ihb =>
    intro g g' h
    simp only [Typed.emit, bind_eq_ok] at h
    obtain ⟨-, -, -, -, -, -, g₁, h₁, g₂, h₂, g₃, h₃, g₄, h₄, g₅, h₅, g₆, h₆, g₇, h₇, h₈⟩ := h
    -- the condition is popped, so both branches start from the depth before the `if`
    have start : g₂.depth = g.depth := by
      rw [(Emitter.pop_ok h₂).2, he.depth_emit h₁, Nat.add_sub_cancel]
    have test : g₂.code.maxStack = max g.code.maxStack (g.depth + e.need) := by
      rw [(Emitter.pop_ok h₂).1, ihe h₁]
    have yes : g₆.code.maxStack = max g₂.code.maxStack (g₂.depth + a.need) := by
      rw [(Emitter.land_ok h₆).1, (Emitter.writeJump_ok h₅).1, iha h₄, (Emitter.writeJump_ok h₃).1,
        (Emitter.writeJump_ok h₃).2]
    have no : g₇.code.maxStack = max g₆.code.maxStack (g₂.depth + b.need) := ihb h₇
    rw [(Emitter.land_ok h₈).1, Typed.need]
    omega

theorem Typed.WellTypedStatement.maxStack_emit {lines : LineMap} {t : Typed}
    (ht : t.WellTypedStatement) (ts : List Typed) {g g' : Emitter} (hg : g.depth = 0)
    (h : t.emit lines g = .ok g') :
    max g'.code.maxStack (needOf ts) = max g.code.maxStack (needOf (t :: ts)) := by
  cases ht with
  | expression ht =>
    rw [ht.maxStack_emit h, hg, needOf_cons_expression ts ht.isDefinition]
    omega
  | definition =>
    obtain ⟨-, -, heq⟩ := bind_eq_ok.mp h
    rw [needOf_cons_definition ts rfl, Except.ok.inj heq]

/-- Dropping a value changes no count, and leaves the stack as it was before the statement. -/
theorem Emitter.discard_ok {lines : LineMap} {t : Typed} {g g' : Emitter}
    (hg : g.depth = t.leaves.length) (h : g.discard lines t = .ok g') :
    g'.code.maxStack = g.code.maxStack ∧ g'.depth = 0 := by
  have settles := g.discard_settles lines t (d := 0) (by rw [hg, Nat.zero_add])
  rw [h] at settles
  refine ⟨?_, settles.2⟩
  rw [discard] at h
  split at h
  · rw [Except.ok.inj h]
  · obtain ⟨g₁, h₁, rfl⟩ := map_eq_ok.mp h
    rw [maxStack_write, (pop_ok h₁).1]

/-- **The generator counts what the statements need.** -/
theorem maxStack_emitAll {lines : LineMap} : ∀ {ts : List Typed} {g g' : Emitter},
    (∀ t ∈ ts, t.WellTypedStatement) → g.depth = 0 → emitAll lines ts g = .ok g' →
    g'.code.maxStack = max g.code.maxStack (needOf ts)
  | [], g, g', _, _, h => by
    rw [← Except.ok.inj h]
    exact (Nat.max_eq_left (Nat.zero_le _)).symm
  | [t], g, g', ht, hg, h => by
    have counted := (ht t (List.mem_singleton_self t)).maxStack_emit [] hg h
    rwa [show needOf [] = 0 from rfl, Nat.max_eq_left (Nat.zero_le _)] at counted
  | t :: u :: ts, g, g', ht, hg, h => by
    obtain ⟨first_wt, rest_wt⟩ := List.forall_mem_cons.mp ht
    simp only [emitAll, bind_eq_ok] at h
    obtain ⟨g₁, h₁, g₂, h₂, h₃⟩ := h
    have depth : g₁.depth = t.leaves.length := by
      have settles := first_wt.emit_settles lines g
      rw [h₁, hg, Nat.zero_add] at settles
      exact settles.2
    obtain ⟨kept, empty⟩ := Emitter.discard_ok depth h₂
    rw [maxStack_emitAll rest_wt empty h₃, kept]
    exact first_wt.maxStack_emit _ hg h₁

/-! ## 6. Sessions -/

/-- **The stated depth of generated code is exact**, and it is what the statements need. -/
theorem maxStackIs_of_ofProgram {lines : LineMap} {ts : List Typed} {c : Bytecode}
    (ht : ∀ t ∈ ts, t.WellTypedStatement) (h : Bytecode.ofProgram lines ts = .ok c) :
    c.MaxStackIs (needOf ts) := by
  have stated : c.maxStack = needOf ts := by
    obtain ⟨g, hg, rfl⟩ := map_eq_ok.mp h
    rw [maxStack_emitAll ht rfl hg]
    exact Nat.max_eq_right (Nat.zero_le _)
  obtain ⟨code, typing⟩ := stackTyping_of_ofProgram ht h
  obtain ⟨code', hscheme, hbytes, -⟩ := scheme_of_ofProgram h
  have items : c.ItemsAt 0 code' := by
    intro item hitem
    rwa [Bytecode.items, hbytes]
  refine ⟨stated, fun o d hreach => ?_, ?_, fun o d hreach => hreach.supplied typing⟩
  · obtain ⟨st, hst, rfl⟩ := hreach.height typing
    rw [stated]
    exact height_le_needOf ht hst
  · rw [stated]
    exact exists_reaches_needOf ht hscheme items .start

/-- **`maxStack` is exact.**  Whatever a reachable session's check delivers, the code that any
session generates for all of it, or for one of its trees, states the depth that its paths reach at
most: the greatest need of the statements that are no definitions. -/
theorem Session.max_stack_is_exact {s : Session} (hs : s.Reachable) {ts : List Typed}
    (hd : s.Delivers ts) (g : Session) :
    (∀ ty c, g.generateProgram ts = .ok (ty, c) → c.MaxStackIs (needOf ts)) ∧
      ∀ t ∈ ts, ∀ ty c, g.generate t = .ok (ty, c) → c.MaxStackIs (needOf [t]) := by
  have program : ∀ us : List Typed, (∀ t ∈ us, t.WellTypedStatement) → ∀ ty c,
      g.generateProgram us = .ok (ty, c) → c.MaxStackIs (needOf us) := by
    intro us hus ty c h
    obtain ⟨c', hc', heq⟩ := map_eq_ok.mp h
    rw [Prod.mk.injEq] at heq
    obtain ⟨-, rfl⟩ := heq
    exact maxStackIs_of_ofProgram hus hc'
  have wellTyped := hd.wellTyped hs
  refine ⟨program ts wellTyped, fun t ht ty c h => program [t] (fun u hu => ?_) ty c h⟩
  rw [List.mem_singleton.mp hu]
  exact wellTyped t ht

/-- `"a"; x + (if true then x else x * (x * x))` with `x` bound to zero: four values, on a path
through the branch that no run takes. -/
theorem Session.max_stack_is_exact_dead_branch :
    let x := Expr.ident .zero "x"
    let es := [.literal .zero (.str "a"), Expr.binary .zero .add x
      (.cond .zero (.literal .zero (.bool true)) x (.binary .zero .mul x (.binary .zero .mul x x)))]
    let n : NodeInfo := ⟨.number, .zero⟩
    let t := Typed.ident n "x" (some (.number ⟨0⟩))
    let ts := [.constant ⟨.string, .zero⟩ (.str "a"), Typed.binary n .add t
      (.cond n (.constant ⟨.bool, .zero⟩ (.bool true)) t (.binary n .mul t (.binary n .mul t t)))]
    let s := (new none .forbid).run [.define "x" (.number ⟨0⟩)]
    s.checkProgram es = (.ok ts, s) ∧
      ∃ c, s.generateProgram ts = .ok (.number, c) ∧ c.MaxStackIs 4 := by
  intro x es n t ts s
  have reachable : s.Reachable := ⟨none, .forbid, [.define "x" (.number ⟨0⟩)], rfl⟩
  have checked : s.checkProgram es = (.ok ts, s) := rfl
  obtain ⟨c, generated⟩ : ∃ c, s.generateProgram ts = .ok (.number, c) := ⟨_, by cbv⟩
  have exact_depth := (max_stack_is_exact reachable (Or.inl ⟨es, s, checked⟩) s).1 _ c generated
  exact ⟨checked, c, generated, exact_depth⟩

end ExprLang
