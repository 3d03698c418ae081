/-
# The stack machine

The machine that the instructions are made for.  Its state is an offset into the code and a stack of
values; a step decodes the instruction at the offset and does what the instruction says.  The
machine checks what it is given: an operation on operands of the wrong types, a constant that the
pool does not hold, a byte that is no instruction and a stack that is too short all leave it
**stuck**.  It is done when the offset is the length of the code.
-/
import ExprLang.Proofs.Meaning
import ExprLang.Proofs.Scheme
import Mathlib.Logic.Relation

namespace ExprLang

/-! ## 1. One instruction -/

/-- The effect of an operation without an operand on the stack, whose top comes first: the right
operand of a binary operation lies above the left one. -/
def SimpleOp.exec (A : Arithmetic) : SimpleOp → List Value → Option (List Value)
  | .pushTrue, st => some (.bool true :: st)
  | .pushFalse, st => some (.bool false :: st)
  | .pushUnit, st => some (.unit :: st)
  | .pop, _ :: st => some st
  | .unary .neg, .number a :: st => some (.number (A.neg a) :: st)
  | .unary .not, .bool b :: st => some (.bool (!b) :: st)
  | .binary .add, .number b :: .number a :: st => some (.number (A.add a b) :: st)
  | .binary .sub, .number b :: .number a :: st => some (.number (A.sub a b) :: st)
  | .binary .mul, .number b :: .number a :: st => some (.number (A.mul a b) :: st)
  | .binary .div, .number b :: .number a :: st => some (.number (A.div a b) :: st)
  | .binary .eq, b :: a :: st => (a.same? A b).map fun same => .bool same :: st
  | .binary .ne, b :: a :: st => (a.same? A b).map fun same => .bool (!same) :: st
  | .binary .lt, .number b :: .number a :: st => some (.bool (A.lt a b) :: st)
  | .binary .le, .number b :: .number a :: st => some (.bool (A.le a b) :: st)
  | .binary .gt, .number b :: .number a :: st => some (.bool (A.gt a b) :: st)
  | .binary .ge, .number b :: .number a :: st => some (.bool (A.ge a b) :: st)
  | _, _ => none

namespace Machine

structure State where
  pc : Nat
  stack : List Value
  deriving DecidableEq, Repr

/-- The effect of an instruction.  A jump skips as many bytes behind itself as its operand says. -/
def execute (A : Arithmetic) (c : Bytecode) : Instruction → State → Option State
  | .simple op, ⟨pc, st⟩ => (op.exec A st).map (⟨pc + 1, ·⟩)
  | .withOperand .pushConstant x, ⟨pc, st⟩ => (c.constant? x).map (⟨pc + 2, · :: st⟩)
  | .withOperand .jump x, ⟨pc, st⟩ => some ⟨pc + 2 + x.toNat, st⟩
  | .withOperand .jumpIfFalse _, ⟨pc, .bool true :: st⟩ => some ⟨pc + 2, st⟩
  | .withOperand .jumpIfFalse x, ⟨pc, .bool false :: st⟩ => some ⟨pc + 2 + x.toNat, st⟩
  | .withOperand .jumpIfFalse _, _ => none

def step (A : Arithmetic) (c : Bytecode) (s : State) : Option State :=
  match decodeAt c.code.toList s.pc with
  | .ok i => execute A c i s
  | .error _ => none

/-- Any number of steps. -/
def Steps (A : Arithmetic) (c : Bytecode) : State → State → Prop :=
  Relation.ReflTransGen fun s s' => step A c s = some s'

/-- `Finishes A c vs`: started on the empty stack, the code runs to its end and leaves `vs`; on the
way it is never stuck. -/
structure Finishes (A : Arithmetic) (c : Bytecode) (vs : List Value) : Prop where
  reaches : Steps A c ⟨0, []⟩ ⟨c.size, vs⟩
  neverStuck : ∀ s, Steps A c ⟨0, []⟩ s → s = ⟨c.size, vs⟩ ∨ ∃ s', step A c s = some s'

/-- At the end of the code there is nothing left to do. -/
theorem step_end (A : Arithmetic) (c : Bytecode) (st : List Value) :
    step A c ⟨c.size, st⟩ = none := by
  have : c.code.toList.drop c.size = [] := List.drop_eq_nil_of_le (Nat.le_refl _)
  simp only [step, decodeAt, this, decodeFrom]

/-- **Running to the end excludes getting stuck**, because a state has one successor at most. -/
theorem finishes_of_steps {A : Arithmetic} {c : Bytecode} {vs : List Value}
    (h : Steps A c ⟨0, []⟩ ⟨c.size, vs⟩) : Finishes A c vs := by
  refine ⟨h, fun s hs => ?_⟩
  have unique : Relator.RightUnique fun s s' => step A c s = some s' := by
    intro s s₁ s₂ h₁ h₂
    exact Option.some.inj (h₁.symm.trans h₂)
  have final : ∀ s', Steps A c ⟨c.size, vs⟩ s' → s' = ⟨c.size, vs⟩ := by
    intro s' hs'
    rcases Relation.ReflTransGen.cases_head hs' with heq | ⟨s₁, hstep, -⟩
    · exact heq.symm
    · rw [step_end] at hstep
      exact absurd hstep (by simp)
  rcases Relation.ReflTransGen.total_of_right_unique unique h hs with hfwd | hback
  · exact Or.inl (final s hfwd)
  · rcases Relation.ReflTransGen.cases_head hback with heq | ⟨s₁, hstep, -⟩
    · exact Or.inl heq
    · exact Or.inr ⟨s₁, hstep⟩

end Machine

/-! ## 2. Code at an offset -/

/-- `c.HasAt o code`: the bytes of `code` stand in `c` from the offset `o` on. -/
def Bytecode.HasAt (c : Bytecode) (o : Nat) (code : List Located) : Prop :=
  ∃ rest, c.code.toList.drop o = bytesOf code ++ rest

namespace Bytecode.HasAt

variable {c : Bytecode} {o : Nat} {a b : List Located} {l : Located}

theorem left (h : c.HasAt o (a ++ b)) : c.HasAt o a := by
  obtain ⟨rest, h⟩ := h
  exact ⟨bytesOf b ++ rest, by rw [h, bytesOf_append, List.append_assoc]⟩

theorem right (h : c.HasAt o (a ++ b)) : c.HasAt (o + byteCount a) b := by
  obtain ⟨rest, h⟩ := h
  refine ⟨rest, ?_⟩
  rw [← List.drop_drop, h, bytesOf_append, List.append_assoc, byteCount, List.drop_left]

theorem tail (h : c.HasAt o (l :: b)) : c.HasAt (o + l.instruction.size) b := by
  have := right (a := [l]) h
  rwa [byteCount_cons, byteCount_nil, Nat.add_zero] at this

theorem decode (h : c.HasAt o (l :: b)) : decodeAt c.code.toList o = .ok l.instruction := by
  obtain ⟨rest, h⟩ := h
  rw [decodeAt, h, bytesOf_cons, List.append_assoc, decodeFrom_encode_append]

/-- The machine at the offset does what the first instruction says. -/
theorem steps {A : Arithmetic} {st : List Value} {s : Machine.State} (h : c.HasAt o (l :: b))
    (hs : Machine.execute A c l.instruction ⟨o, st⟩ = some s) : Machine.Steps A c ⟨o, st⟩ s := by
  refine .single ?_
  simp only [Machine.step, h.decode, hs]

end Bytecode.HasAt

/-! ## 3. Instructions and operators

The machine finds the operands of an operator on its stack, last operand first. -/

theorem exec_unary {A : Arithmetic} {op : UnaryOp} {v w : Value} (h : op.eval A v = some w)
    (st : List Value) : (SimpleOp.unary op).exec A (v :: st) = some (w :: st) := by
  unfold UnaryOp.eval at h
  split at h
  · rw [← Option.some.inj h, SimpleOp.exec]
  · rw [← Option.some.inj h, SimpleOp.exec]
  · simp at h

theorem exec_binary {A : Arithmetic} {op : BinaryOp} {v w u : Value}
    (h : op.eval A v w = some u) (st : List Value) :
    (SimpleOp.binary op).exec A (w :: v :: st) = some (u :: st) := by
  unfold BinaryOp.eval at h
  split at h
  -- equality and its opposite go through a comparison, all others compute at once
  case h_9 =>
    obtain ⟨same, hs, rfl⟩ := Option.map_eq_some_iff.mp h
    rw [SimpleOp.exec, hs, Option.map_some]
  case h_10 =>
    obtain ⟨same, hs, rfl⟩ := Option.map_eq_some_iff.mp h
    rw [SimpleOp.exec, hs, Option.map_some]
  case h_11 => simp at h
  all_goals rw [← Option.some.inj h, SimpleOp.exec]

theorem execute_pushes {A : Arithmetic} {c : Bytecode} {i : Instruction} {v : Value}
    (h : Pushes c.constants.toList i v) (pc : Nat) (st : List Value) :
    Machine.execute A c i ⟨pc, st⟩ = some ⟨pc + i.size, v :: st⟩ := by
  cases h with
  | constant hx =>
    rw [Array.getElem?_toList] at hx
    rw [Machine.execute, Bytecode.constant?, hx]
    rfl
  | true => rfl
  | false => rfl
  | unit => rfl

end ExprLang
