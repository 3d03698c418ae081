/-
# Bytecode

The container that code is written into: the bytes, the source line of each of them, the pool of
constants and the greatest depth of the stack.  Bytes are appended and later only overwritten, never
moved; constants are only added.  A constant is named by one byte, so the pool holds at most 256.

In the compiler `patch?` is `write_at`, `addConstant` is `add_constant` and `items` is
`instructions`.
-/
import ExprLang.Instruction
import ExprLang.Value

namespace ExprLang

structure Bytecode where
  code : Array UInt8
  /-- The line of every byte of `code`. -/
  lines : Array UInt32
  constants : Array Value
  maxStack : Nat
  deriving DecidableEq, Repr

namespace Bytecode

def empty : Bytecode := ⟨#[], #[], #[], 0⟩

/-- The number of bytes, which is also the offset of the next one. -/
def size (c : Bytecode) : Nat := c.code.size

def isEmpty (c : Bytecode) : Bool := c.code.isEmpty

/-! ## 1. Writing -/

/-- Appends a byte with its line. -/
def write (c : Bytecode) (byte : UInt8) (line : UInt32) : Bytecode :=
  { c with code := c.code.push byte, lines := c.lines.push line }

def writeOp (c : Bytecode) (op : Opcode) (line : UInt32) : Bytecode := c.write op.byte line

/-- Overwrites a byte and keeps its line; fails where there is no byte. -/
def patch? (c : Bytecode) (index : Nat) (byte : UInt8) : Option Bytecode :=
  if h : index < c.code.size then some { c with code := c.code.set index byte h } else none

/-- A pool index as an operand byte. -/
def poolIndex? (i : Nat) : Option UInt8 := if i < 256 then some i.toUInt8 else none

/-- The index of a constant in the pool, after adding it if no constant there is the same.  There is
no index if no operand byte could hold it. -/
def addConstant (c : Bytecode) (v : Value) : Option UInt8 × Bytecode :=
  match c.constants.toList.findIdx? (·.sameConstant v) with
  | some i => (poolIndex? i, c)
  | none =>
    match poolIndex? c.constants.size with
    | some i => (some i, { c with constants := c.constants.push v })
    | none => (none, c)

/-! ## 2. Reading -/

def constant? (c : Bytecode) (index : UInt8) : Option Value := c.constants[index.toNat]?

def lineAt? (c : Bytecode) (offset : Nat) : Option UInt32 := c.lines[offset]?

/-- The instructions with their offsets; a malformed one comes last. -/
def items (c : Bytecode) : List Item := decodeFrom 0 c.code.toList

/-- All instructions, or the reason why the code cannot be read to its end. -/
def decode (c : Bytecode) : Except DecodeError (List Instruction) :=
  c.items.mapM (·.content)

/-- Equality of all parts, constants being compared as values of the language. -/
def equal (a b : Bytecode) : Bool :=
  a.code == b.code && a.lines == b.lines && a.maxStack == b.maxStack
    && a.constants.size == b.constants.size
    && (a.constants.toList.zip b.constants.toList).all fun (v, w) => v.equal w

/-! ## 3. Sizes and overwriting -/

@[simp]
theorem size_empty : empty.size = 0 := rfl

@[simp]
theorem size_write (c : Bytecode) (b : UInt8) (line : UInt32) :
    (c.write b line).size = c.size + 1 := by
  simp [size, write]

/-- **Everything that overwriting can do**: the byte is there, and it is the only thing that
changes. -/
theorem patch?_eq_some_iff {c c' : Bytecode} {index : Nat} {b : UInt8} :
    c.patch? index b = some c' ↔ index < c.size ∧
      c'.code.toList = c.code.toList.set index b ∧ c'.lines = c.lines ∧
      c'.constants = c.constants ∧ c'.maxStack = c.maxStack := by
  rw [patch?, size]
  split
  · next h =>
    obtain ⟨code, lines, constants, maxStack⟩ := c'
    simp [h, ← Array.toList_inj, eq_comm]
  · next h => simp [h]

theorem size_of_patch? {c c' : Bytecode} {index : Nat} {b : UInt8}
    (h : c.patch? index b = some c') : c'.size = c.size := by
  have length := congrArg List.length (patch?_eq_some_iff.mp h).2.1
  simpa [size] using length

/-- Adding a constant writes no code. -/
theorem size_addConstant (c : Bytecode) (v : Value) : (c.addConstant v).2.size = c.size := by
  rw [addConstant]
  split
  · rfl
  · split <;> rfl

theorem patch?_eq_none_iff {c : Bytecode} {index : Nat} {b : UInt8} :
    c.patch? index b = none ↔ c.size ≤ index := by
  rw [patch?, size]
  split <;> simp <;> omega

end Bytecode

end ExprLang
