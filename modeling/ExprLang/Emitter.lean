/-
# Code generation

Code for a typed tree is written in one pass from left to right.  A jump is written before the
distance it skips is known: its operand is first a placeholder, and is filled in when the code it
skips has been written.  Along the way the emitter counts the values on the stack, because the
machine wants to know how deep its stack gets.

In the compiler `Typed.emit` is `transform` and `Emitter.pushValue` is `push_value`; a jump is
written by `write_jump`, here `Emitter.writeJump`, and filled in by `jump_patch`, here
`Emitter.land`.  `Bytecode.ofProgram` is `compile_program`.
-/
import ExprLang.Bytecode
import ExprLang.CodeError
import ExprLang.LineMap
import ExprLang.Typed

namespace ExprLang

/-- A condition for going on. -/
def require (holds : Bool) (m : Misuse) : Except CodeFailure Unit :=
  if holds then .ok () else .error (.misuse m)

/-- The code written so far, and the depth of the stack after it. -/
structure Emitter where
  code : Bytecode
  depth : Nat
  deriving DecidableEq, Repr

namespace Emitter

def start : Emitter := ⟨.empty, 0⟩

/-! ## 1. Counting the stack -/

/-- One value more. -/
def push (g : Emitter) : Emitter :=
  { code := { g.code with maxStack := max g.code.maxStack (g.depth + 1) }, depth := g.depth + 1 }

/-- One value less. -/
def pop (g : Emitter) : Except CodeFailure Emitter :=
  if g.depth = 0 then .error (.misuse .stackUnderflow) else .ok { g with depth := g.depth - 1 }

/-! ## 2. Writing instructions -/

def write (g : Emitter) (op : SimpleOp) (line : UInt32) : Emitter :=
  { g with code := g.code.writeOp (.simple op) line }

def writeWith (g : Emitter) (op : OperandOp) (operand : UInt8) (line : UInt32) : Emitter :=
  { g with code := (g.code.writeOp (.withOperand op) line).write operand line }

/-- The offset of the operand of an instruction that is written next. -/
def nextOperand (g : Emitter) : Nat := g.code.size + 1

/-- Writes a jump with a placeholder for its distance. -/
def writeJump (g : Emitter) (op : OperandOp) (line : UInt32) : Except CodeFailure Emitter := do
  require op.isJump .notJump
  return g.writeWith op 0 line

/-- Makes the jump with its operand at `index` go to the end of the code.  The operand has to be
there, in front of the end. -/
def land (g : Emitter) (index : Nat) : Except CodeFailure Emitter := do
  require (index < g.code.size) .landsBeforeOperand
  let distance := g.code.size - index - 1
  if distance ≤ 255 then
    match g.code.patch? index distance.toUInt8 with
    | some code => return { g with code }
    | none => throw (.misuse (.noByte index g.code.size))
  else throw (.error (.jumpTooFar distance))

/-- Writes the instruction that pushes a constant of the pool. -/
def writeConstant (g : Emitter) (v : Value) (line : UInt32) : Except CodeFailure Emitter :=
  match g.code.addConstant v with
  | (some index, code) => .ok ({ g with code }.writeWith .pushConstant index line)
  | (none, _) => .error (.error .tooManyConstants)

/-- Pushes a value in the way of its type: numbers and strings come from the pool. -/
def pushValue (g : Emitter) (ty : Ty) (v : Value) (line : UInt32) : Except CodeFailure Emitter :=
  match ty with
  | .number | .string => (g.writeConstant v line).map push
  | .bool => .ok (g.write (if v = .bool true then .pushTrue else .pushFalse) line).push
  | .unit => .ok (g.write .pushUnit line).push
  | .error => .error (.misuse .errorTyped)

end Emitter

/-! ## 3. Trees -/

/-- Writes the code that leaves the value of the tree on the stack.  A definition leaves nothing:
its value was bound when it was checked. -/
def Typed.emit (lines : LineMap) : Typed → Emitter → Except CodeFailure Emitter
  | .constant i v, g => g.pushValue i.ty v (lines.lineOf i.span.start)
  | .ident i x v, g => do
    require (!i.ty.isError) .errorTyped
    match v with
    | some v => g.pushValue i.ty v (lines.lineOf i.span.start)
    | none => throw (.misuse (.unresolved x))
  | .unary i op e, g => do
    require (!i.ty.isError) .errorTyped
    let g ← e.emit lines g
    return g.write op.code (lines.lineOf i.span.start)
  | .binary i op l r, g => do
    require (!i.ty.isError) .errorTyped
    let g ← l.emit lines g
    let g ← r.emit lines g
    let g ← g.pop
    return g.write op.code (lines.lineOf i.span.start)
  | .cond i c t f, g => do
    require (!i.ty.isError) .errorTyped
    require (c.ty == .bool) (.condition c.ty)
    require (t.ty == f.ty) (.branches t.ty f.ty)
    let line := lines.lineOf i.span.start
    let g ← c.emit lines g
    let g ← g.pop
    let depth := g.depth
    let toElse := g.nextOperand
    let g ← g.writeJump .jumpIfFalse line
    let g ← t.emit lines g
    let toEnd := g.nextOperand
    let g ← g.writeJump .jump line
    let g ← g.land toElse
    -- only one of the branches runs, so both start at the same depth
    let g ← f.emit lines { g with depth }
    g.land toEnd
  | .lambda _, _ => .error (.error (.unsupported "lambda expressions"))
  | .define i _ _, g => do
    require (!i.ty.isError) .errorTyped
    return g

/-- Drops the value of a statement that is followed by another one. -/
def Emitter.discard (g : Emitter) (lines : LineMap) (t : Typed) : Except CodeFailure Emitter :=
  if t.isDefinition then .ok g
  else g.pop.map (·.write .pop (lines.lineOf t.span.start))

/-- Writes statements one after another; only the value of the last one stays on the stack. -/
def emitAll (lines : LineMap) : List Typed → Emitter → Except CodeFailure Emitter
  | [], g => .ok g
  | [t], g => t.emit lines g
  | t :: rest, g => do
    let g ← t.emit lines g
    let g ← g.discard lines t
    emitAll lines rest g

/-! ## 4. Whole programs -/

/-- The bytecode of one tree. -/
def Bytecode.ofTyped (lines : LineMap) (t : Typed) : Except CodeFailure Bytecode :=
  (t.emit lines .start).map (·.code)

/-- The bytecode of a list of statements. -/
def Bytecode.ofProgram (lines : LineMap) (ts : List Typed) : Except CodeFailure Bytecode :=
  (emitAll lines ts .start).map (·.code)

/-- The type of a program: that of its last statement. -/
def programTy (ts : List Typed) : Ty := ts.getLast?.elim .unit Typed.ty

/-! ## 5. What writing and landing a jump do -/

namespace Emitter

variable (g : Emitter)

@[simp]
theorem size_write (op : SimpleOp) (line : UInt32) :
    (g.write op line).code.size = g.code.size + 1 :=
  g.code.size_write _ _

@[simp]
theorem size_writeWith (op : OperandOp) (x : UInt8) (line : UInt32) :
    (g.writeWith op x line).code.size = g.code.size + 2 := by
  simp [writeWith, Bytecode.writeOp]

theorem writeJump_of_isJump {op : OperandOp} (h : op.isJump = true) (line : UInt32) :
    g.writeJump op line = .ok (g.writeWith op 0 line) := by
  rw [writeJump, h]
  rfl

/-- **Everything that landing a jump can do.**  Once there is an operand to fill in, only the
distance can be wrong; the byte that is overwritten is there. -/
theorem land_cases (index : Nat) :
    (g.code.size ≤ index ∧ g.land index = .error (.misuse .landsBeforeOperand)) ∨
      index < g.code.size ∧
        ((255 < g.code.size - index - 1 ∧
          g.land index = .error (.error (.jumpTooFar (g.code.size - index - 1)))) ∨
        (g.code.size - index - 1 ≤ 255 ∧ ∃ code,
          g.code.patch? index (g.code.size - index - 1).toUInt8 = some code ∧
          g.land index = .ok { g with code })) := by
  by_cases hi : index < g.code.size
  · have begun : g.land index = (if g.code.size - index - 1 ≤ 255 then
        match g.code.patch? index (g.code.size - index - 1).toUInt8 with
        | some code => .ok { g with code }
        | none => .error (.misuse (.noByte index g.code.size))
      else .error (.error (.jumpTooFar (g.code.size - index - 1)))) := by
      rw [land, decide_eq_true hi]
      rfl
    refine Or.inr ⟨hi, ?_⟩
    by_cases hd : g.code.size - index - 1 ≤ 255
    · cases hp : g.code.patch? index (g.code.size - index - 1).toUInt8 with
      | none => exact absurd (Bytecode.patch?_eq_none_iff.mp hp) (by omega)
      | some code => exact Or.inr ⟨hd, code, rfl, by rw [begun, if_pos hd, hp]⟩
    · exact Or.inl ⟨by omega, by rw [begun, if_neg hd]⟩
  · refine Or.inl ⟨by omega, ?_⟩
    rw [land, decide_eq_false hi]
    rfl

end Emitter

end ExprLang
