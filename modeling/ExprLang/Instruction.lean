/-
# Instructions of the stack machine

An instruction is one byte that names the operation, followed by one operand byte for the three
operations that take one.  Jumps only go forward: the operand counts the bytes to skip after the
jump.

`Instruction.encode` writes an instruction, `decodeFrom` reads a byte stream up to its end or to the
first byte that cannot be read.

In the compiler `Opcode.ofByte?` is `try_from`, `UnaryOp.code` and `BinaryOp.code` are
`unary_opcode` and `binary_opcode`, `decodeAt` is `decode` and `Instruction.jumpTarget` is
`jump_target`.
-/
import ExprLang.Operator

namespace ExprLang

/-! ## 1. Operations -/

/-- The operations without an operand. -/
inductive SimpleOp where
  /-- Pushes `true`. -/
  | pushTrue
  /-- Pushes `false`. -/
  | pushFalse
  /-- Pushes the unit value. -/
  | pushUnit
  /-- Drops the top of the stack. -/
  | pop
  /-- Replaces the top of the stack by the result of the operator. -/
  | unary (op : UnaryOp)
  /-- Replaces the two topmost values, the right operand above the left one, by the result. -/
  | binary (op : BinaryOp)
  deriving DecidableEq, Repr

/-- The operations with one operand byte. -/
inductive OperandOp where
  /-- Pushes the constant with the index of the operand. -/
  | pushConstant
  /-- Skips as many bytes as the operand says. -/
  | jump
  /-- Pops a Boolean and skips like `jump` if it is `false`. -/
  | jumpIfFalse
  deriving DecidableEq, Repr

inductive Opcode where
  | simple (op : SimpleOp)
  | withOperand (op : OperandOp)
  deriving DecidableEq, Repr

/-- The operation of an operator. -/
def UnaryOp.code : UnaryOp → SimpleOp
  | .neg => .unary .neg
  | .not => .unary .not

def BinaryOp.code : BinaryOp → SimpleOp
  | .add => .binary .add
  | .sub => .binary .sub
  | .mul => .binary .mul
  | .div => .binary .div
  | .eq => .binary .eq
  | .ne => .binary .ne
  | .lt => .binary .lt
  | .le => .binary .le
  | .gt => .binary .gt
  | .ge => .binary .ge

/-! An operator is computed by the operation that has its name. -/

@[simp]
theorem UnaryOp.code_eq (op : UnaryOp) : op.code = .unary op := by
  cases op <;> rfl

@[simp]
theorem BinaryOp.code_eq (op : BinaryOp) : op.code = .binary op := by
  cases op <;> rfl

namespace SimpleOp

def mnemonic : SimpleOp → String
  | pushTrue => "PushTrue"
  | pushFalse => "PushFalse"
  | pushUnit => "PushUnit"
  | pop => "Pop"
  | unary .neg => "Negate"
  | unary .not => "Not"
  | binary .add => "Add"
  | binary .sub => "Subtract"
  | binary .mul => "Multiply"
  | binary .div => "Divide"
  | binary .eq => "Equal"
  | binary .ne => "NotEqual"
  | binary .lt => "Less"
  | binary .le => "LessEqual"
  | binary .gt => "Greater"
  | binary .ge => "GreaterEqual"

def byte : SimpleOp → UInt8
  | pushTrue => 0x02
  | pushFalse => 0x03
  | pushUnit => 0x04
  | pop => 0x05
  | unary .neg => 0x10
  | unary .not => 0x11
  | binary .add => 0x20
  | binary .sub => 0x21
  | binary .mul => 0x22
  | binary .div => 0x23
  | binary .eq => 0x30
  | binary .ne => 0x31
  | binary .lt => 0x32
  | binary .le => 0x33
  | binary .gt => 0x34
  | binary .ge => 0x35

end SimpleOp

namespace OperandOp

def mnemonic : OperandOp → String
  | pushConstant => "PushConstant"
  | jump => "Jump"
  | jumpIfFalse => "JumpIfFalse"

def byte : OperandOp → UInt8
  | pushConstant => 0x01
  | jump => 0x40
  | jumpIfFalse => 0x41

def isJump : OperandOp → Bool
  | pushConstant => false
  | jump | jumpIfFalse => true

end OperandOp

namespace Opcode

/-- Every operation once, in the order of the bytes. -/
def all : List Opcode :=
  [.withOperand .pushConstant, .simple .pushTrue, .simple .pushFalse, .simple .pushUnit,
    .simple .pop, .simple (.unary .neg), .simple (.unary .not), .simple (.binary .add),
    .simple (.binary .sub), .simple (.binary .mul), .simple (.binary .div), .simple (.binary .eq),
    .simple (.binary .ne), .simple (.binary .lt), .simple (.binary .le), .simple (.binary .gt),
    .simple (.binary .ge), .withOperand .jump, .withOperand .jumpIfFalse]

def mnemonic : Opcode → String
  | simple op => op.mnemonic
  | withOperand op => op.mnemonic

def byte : Opcode → UInt8
  | simple op => op.byte
  | withOperand op => op.byte

def operandCount : Opcode → Nat
  | simple _ => 0
  | withOperand _ => 1

def isJump : Opcode → Bool
  | simple _ => false
  | withOperand op => op.isJump

/-- The operation that a byte names. -/
def ofByte? : UInt8 → Option Opcode
  | 0x01 => some (.withOperand .pushConstant)
  | 0x02 => some (.simple .pushTrue)
  | 0x03 => some (.simple .pushFalse)
  | 0x04 => some (.simple .pushUnit)
  | 0x05 => some (.simple .pop)
  | 0x10 => some (.simple (.unary .neg))
  | 0x11 => some (.simple (.unary .not))
  | 0x20 => some (.simple (.binary .add))
  | 0x21 => some (.simple (.binary .sub))
  | 0x22 => some (.simple (.binary .mul))
  | 0x23 => some (.simple (.binary .div))
  | 0x30 => some (.simple (.binary .eq))
  | 0x31 => some (.simple (.binary .ne))
  | 0x32 => some (.simple (.binary .lt))
  | 0x33 => some (.simple (.binary .le))
  | 0x34 => some (.simple (.binary .gt))
  | 0x35 => some (.simple (.binary .ge))
  | 0x40 => some (.withOperand .jump)
  | 0x41 => some (.withOperand .jumpIfFalse)
  | _ => none

/-- The operation with the given mnemonic. -/
def ofMnemonic? (s : String) : Option Opcode := all.find? (·.mnemonic == s)

theorem mem_all (op : Opcode) : op ∈ all := by
  rcases op with (_ | _ | _ | _ | op | op) | op <;> try cases op
  all_goals decide

/-- **Every operation is known by its byte.** -/
@[simp]
theorem ofByte?_byte (op : Opcode) : ofByte? op.byte = some op := by
  rcases op with (_ | _ | _ | _ | op | op) | op <;> try cases op
  all_goals decide

/-- **The two tables agree**: a byte names the operation whose byte it is, and no other. -/
theorem ofByte?_eq_some_iff {b : UInt8} {op : Opcode} : ofByte? b = some op ↔ op.byte = b := by
  constructor
  · intro h
    unfold ofByte? at h
    split at h <;> cases h
    all_goals rfl
  · rintro rfl
    exact ofByte?_byte op

end Opcode

/-! ## 2. Instructions -/

inductive Instruction where
  | simple (op : SimpleOp)
  | withOperand (op : OperandOp) (operand : UInt8)
  deriving DecidableEq, Repr

/-- Where an instruction jumps to, as a machine address. -/
inductive JumpTarget where
  /-- The instruction is no jump. -/
  | none
  | address (a : UInt64)
  /-- The target lies outside the 64-bit address space. -/
  | overflow
  deriving DecidableEq, Repr

namespace Instruction

def opcode : Instruction → Opcode
  | simple op => .simple op
  | withOperand op _ => .withOperand op

def operand? : Instruction → Option UInt8
  | simple _ => none
  | withOperand _ x => some x

/-- The number of bytes. -/
def size (i : Instruction) : Nat := 1 + i.opcode.operandCount

def text (i : Instruction) : String :=
  match i.operand? with
  | none => i.opcode.mnemonic
  | some x => i.opcode.mnemonic ++ " " ++ toString x.toNat

def encode : Instruction → List UInt8
  | simple op => [op.byte]
  | withOperand op x => [op.byte, x]

/-- Where a jump that stands at `offset` goes: past its own end by its operand. -/
def target? (i : Instruction) (offset : Nat) : Option Nat :=
  match i with
  | simple _ => none
  | withOperand op x => if op.isJump then some (offset + i.size + x.toNat) else none

/-- The target as a machine address. -/
def jumpTarget (i : Instruction) (offset : UInt64) : JumpTarget :=
  match i.target? offset.toNat with
  | none => .none
  | some a => if a < UInt64.size then .address a.toUInt64 else .overflow

@[simp]
theorem length_encode (i : Instruction) : i.encode.length = i.size := by
  cases i <;> rfl

theorem size_pos (i : Instruction) : 0 < i.size := by
  simp only [size]
  omega

end Instruction

/-! ## 3. Reading bytes -/

inductive DecodeError where
  /-- The byte names no operation. -/
  | unknownOpcode (byte : UInt8)
  /-- The stream ends before the operand. -/
  | missingOperand (op : OperandOp)
  /-- There is no byte at the offset. -/
  | outOfBounds (offset : Nat)
  deriving DecidableEq, Repr

def DecodeError.message : DecodeError → String
  | unknownOpcode b =>
    let digits := Nat.toDigits 16 b.toNat
    "unknown opcode 0x" ++ String.ofList (List.replicate (2 - digits.length) '0' ++ digits)
  | missingOperand op => "missing operand for " ++ op.mnemonic
  | outOfBounds offset => "offset " ++ toString offset ++ " is past the end of the code"

/-- What stands at an offset of a byte stream. -/
structure Item where
  offset : Nat
  content : Except DecodeError Instruction

/-- Reads a byte stream that begins at `offset`, instruction after instruction, up to its end or to
the first one that is malformed, which comes last. -/
def decodeFrom : Nat → List UInt8 → List Item
  | _, [] => []
  | offset, b :: rest =>
    match Opcode.ofByte? b with
    | none => [⟨offset, .error (.unknownOpcode b)⟩]
    | some (.simple op) => ⟨offset, .ok (.simple op)⟩ :: decodeFrom (offset + 1) rest
    | some (.withOperand op) =>
      match rest with
      | [] => [⟨offset, .error (.missingOperand op)⟩]
      | x :: rest => ⟨offset, .ok (.withOperand op x)⟩ :: decodeFrom (offset + 2) rest

/-- **Reading undoes writing**, whatever follows. -/
theorem decodeFrom_encode_append (offset : Nat) (i : Instruction) (rest : List UInt8) :
    decodeFrom offset (i.encode ++ rest) =
      ⟨offset, .ok i⟩ :: decodeFrom (offset + i.size) rest := by
  cases i with
  | simple op =>
    have h : Opcode.ofByte? op.byte = some (.simple op) := Opcode.ofByte?_byte (.simple op)
    simp [Instruction.encode, decodeFrom, h, Instruction.size, Instruction.opcode,
      Opcode.operandCount]
  | withOperand op x =>
    have h : Opcode.ofByte? op.byte = some (.withOperand op) :=
      Opcode.ofByte?_byte (.withOperand op)
    simp [Instruction.encode, decodeFrom, h, Instruction.size, Instruction.opcode,
      Opcode.operandCount]

/-- The instruction at an offset of the code. -/
def decodeAt (code : List UInt8) (offset : Nat) : Except DecodeError Instruction :=
  match decodeFrom offset (code.drop offset) with
  | [] => .error (.outOfBounds offset)
  | item :: _ => item.content

end ExprLang
