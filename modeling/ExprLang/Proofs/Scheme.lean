/-
# The code generator without its buffer

`Typed.scheme` says what the code of a tree is, piece by piece: the code of an operator is the code
of its operands and one instruction, the code of an `if` is five pieces with two distances that are
the sizes of pieces.  There is no buffer in it, no placeholder, no position and no count of the
stack; the one thing that is threaded through is the pool of constants.

`Typed.emit_follows` says that the generator, which appends to a buffer and overwrites placeholders
in it, writes exactly this.  **A patch hits its own placeholder** because of where it stands: behind
the code that was there before it, at a distance that the pieces in between decide
(`Bytecode.Grows.patch`).  This holds of every tree, well typed or not.

In the compiler the placeholder is left by `write_jump` and overwritten by `jump_patch`.
-/
import ExprLang.Proofs.WellTyped

namespace ExprLang

/-! ## 1. Instructions with lines -/

/-- An instruction with the source line of its bytes. -/
structure Located where
  instruction : Instruction
  line : UInt32
  deriving DecidableEq, Repr

def bytesOf (code : List Located) : List UInt8 := code.flatMap fun l => l.instruction.encode

def linesOf (code : List Located) : List UInt32 :=
  code.flatMap fun l => List.replicate l.instruction.size l.line

def byteCount (code : List Located) : Nat := (bytesOf code).length

@[simp]
theorem bytesOf_nil : bytesOf [] = [] := rfl

@[simp]
theorem bytesOf_cons (l : Located) (code : List Located) :
    bytesOf (l :: code) = l.instruction.encode ++ bytesOf code := rfl

@[simp]
theorem bytesOf_append (a b : List Located) : bytesOf (a ++ b) = bytesOf a ++ bytesOf b :=
  List.flatMap_append

@[simp]
theorem linesOf_nil : linesOf [] = [] := rfl

@[simp]
theorem linesOf_cons (l : Located) (code : List Located) :
    linesOf (l :: code) = List.replicate l.instruction.size l.line ++ linesOf code := rfl

@[simp]
theorem linesOf_append (a b : List Located) : linesOf (a ++ b) = linesOf a ++ linesOf b :=
  List.flatMap_append

@[simp]
theorem byteCount_nil : byteCount [] = 0 := rfl

@[simp]
theorem byteCount_cons (l : Located) (code : List Located) :
    byteCount (l :: code) = l.instruction.size + byteCount code := by
  rw [byteCount, bytesOf_cons, List.length_append, Instruction.length_encode, byteCount]

@[simp]
theorem byteCount_append (a b : List Located) :
    byteCount (a ++ b) = byteCount a + byteCount b := by
  rw [byteCount, bytesOf_append, List.length_append, byteCount, byteCount]

@[simp]
theorem size_simple (op : SimpleOp) : (Instruction.simple op).size = 1 := rfl

@[simp]
theorem size_withOperand (op : OperandOp) (x : UInt8) : (Instruction.withOperand op x).size = 2 :=
  rfl

/-- Where code with two instructions with operands in it ends. -/
theorem add_byteCount_cond (o : Nat) (test yes no : List Located) (op op' : OperandOp)
    (x x' : UInt8) (line line' : UInt32) :
    o + byteCount
      (test ++ ⟨.withOperand op x, line⟩ :: (yes ++ ⟨.withOperand op' x', line'⟩ :: no)) =
      o + byteCount test + 2 + byteCount yes + 2 + byteCount no := by
  simp only [byteCount_append, byteCount_cons, size_withOperand]
  omega

theorem decodeFrom_bytesOf_cons (o : Nat) (l : Located) (code : List Located) :
    decodeFrom o (bytesOf (l :: code)) =
      ⟨o, .ok l.instruction⟩ :: decodeFrom (o + l.instruction.size) (bytesOf code) := by
  rw [bytesOf_cons, decodeFrom_encode_append]

/-- Code is read piece by piece: the second piece begins where the first one ends. -/
theorem decodeFrom_bytesOf_append (b : List Located) :
    ∀ (o : Nat) (a : List Located), decodeFrom o (bytesOf (a ++ b)) =
      decodeFrom o (bytesOf a) ++ decodeFrom (o + byteCount a) (bytesOf b)
  | o, [] => rfl
  | o, l :: a => by
    rw [List.cons_append, decodeFrom_bytesOf_cons, decodeFrom_bytesOf_cons,
      decodeFrom_bytesOf_append, byteCount_cons, List.cons_append, Nat.add_assoc]

theorem Bytecode.size_eq_byteCount {c : Bytecode} {code : List Located}
    (h : c.code.toList = bytesOf code) : c.size = byteCount code := by
  rw [Bytecode.size, ← Array.length_toList, h, byteCount]

/-! ## 2. The scheme -/

/-- The index of a constant in a pool, and the pool with the constant in it. -/
def intern (pool : List Value) (v : Value) : Option (UInt8 × List Value) :=
  match pool.findIdx? (·.sameConstant v) with
  | some i => (Bytecode.poolIndex? i).map (·, pool)
  | none => (Bytecode.poolIndex? pool.length).map (·, pool ++ [v])

/-- A number of bytes to skip, as an operand. -/
def distance (n : Nat) : Except CodeError UInt8 :=
  if n ≤ 255 then .ok n.toUInt8 else .error (.jumpTooFar n)

/-- The code that pushes a constant of the pool. -/
def constantScheme (v : Value) (line : UInt32) (pool : List Value) :
    Except CodeError (List Located × List Value) :=
  match intern pool v with
  | some (x, pool) => .ok ([⟨.withOperand .pushConstant x, line⟩], pool)
  | none => .error .tooManyConstants

/-- The code of a leaf. -/
def leafScheme (ty : Ty) (v : Value) (line : UInt32) (pool : List Value) :
    Except CodeError (List Located × List Value) :=
  match ty with
  | .number | .string => constantScheme v line pool
  | .bool => .ok ([⟨.simple (if v = .bool true then .pushTrue else .pushFalse), line⟩], pool)
  | .unit => .ok ([⟨.simple .pushUnit, line⟩], pool)
  | .error => .ok ([], pool)

/-- The code of a tree, with the pool before and after it. -/
def Typed.scheme (lines : LineMap) :
    Typed → List Value → Except CodeError (List Located × List Value)
  | .constant i v, pool => leafScheme i.ty v (lines.lineOf i.span.start) pool
  | .ident i _ (some v), pool => leafScheme i.ty v (lines.lineOf i.span.start) pool
  | .ident _ _ none, pool => .ok ([], pool)
  | .unary i op e, pool => do
    let (code, pool) ← e.scheme lines pool
    return (code ++ [⟨.simple (.unary op), lines.lineOf i.span.start⟩], pool)
  | .binary i op l r, pool => do
    let (left, pool) ← l.scheme lines pool
    let (right, pool) ← r.scheme lines pool
    return (left ++ (right ++ [⟨.simple (.binary op), lines.lineOf i.span.start⟩]), pool)
  | .cond i c a b, pool => do
    let line := lines.lineOf i.span.start
    let (test, pool) ← c.scheme lines pool
    let (yes, pool) ← a.scheme lines pool
    let toElse ← distance (byteCount yes + 2)
    let (no, pool) ← b.scheme lines pool
    let toEnd ← distance (byteCount no)
    return (test ++ ⟨.withOperand .jumpIfFalse toElse, line⟩ ::
      (yes ++ ⟨.withOperand .jump toEnd, line⟩ :: no), pool)
  | .lambda _, _ => .error (.unsupported "lambda expressions")
  | .define .., pool => .ok ([], pool)

/-- The code that drops the value of a statement. -/
def discardCode (lines : LineMap) (t : Typed) : List Located :=
  if t.isDefinition then [] else [⟨.simple .pop, lines.lineOf t.span.start⟩]

/-- The code of a list of statements. -/
def schemeAll (lines : LineMap) :
    List Typed → List Value → Except CodeError (List Located × List Value)
  | [], pool => .ok ([], pool)
  | [t], pool => t.scheme lines pool
  | t :: u :: ts, pool => do
    let (code, pool) ← t.scheme lines pool
    let (rest, pool) ← schemeAll lines (u :: ts) pool
    return (code ++ (discardCode lines t ++ rest), pool)

/-! ## 3. Growing a buffer -/

/-- `c.Grows code pool c'`: the buffer `c'` is `c` with the bytes of `code` and their lines behind
it, and its pool is `pool`. -/
structure Bytecode.Grows (c : Bytecode) (code : List Located) (pool : List Value) (c' : Bytecode) :
    Prop where
  bytes : c'.code.toList = c.code.toList ++ bytesOf code
  lines : c'.lines.toList = c.lines.toList ++ linesOf code
  constants : c'.constants.toList = pool

namespace Bytecode

variable {c c' c'' : Bytecode} {a b : List Located} {p q : List Value}

theorem Grows.refl (c : Bytecode) : c.Grows [] c.constants.toList c :=
  ⟨by simp, by simp, rfl⟩

/-- What grows in two steps has grown by the code of both. -/
theorem Grows.trans (h : c.Grows a p c') (h' : c'.Grows b q c'') : c.Grows (a ++ b) q c'' := by
  refine ⟨?_, ?_, h'.constants⟩
  · rw [h'.bytes, h.bytes, bytesOf_append, List.append_assoc]
  · rw [h'.lines, h.lines, linesOf_append, List.append_assoc]

/-- A buffer gets longer by the size of its new code. -/
theorem Grows.size (h : c.Grows a p c') : c'.size = c.size + byteCount a := by
  have := congrArg List.length h.bytes
  simpa [Bytecode.size, byteCount] using this

theorem Grows.write {g : Emitter} (h : c.Grows a p g.code) (op : SimpleOp) (line : UInt32) :
    c.Grows (a ++ [⟨.simple op, line⟩]) p (g.write op line).code := by
  refine ⟨?_, ?_, h.constants⟩
  · simp [Emitter.write, writeOp, Bytecode.write, h.bytes, Instruction.encode, Opcode.byte]
  · simp [Emitter.write, writeOp, Bytecode.write, h.lines]

/-- An operand has the line of its instruction. -/
theorem Grows.writeWith {g : Emitter} (h : c.Grows a p g.code) (op : OperandOp) (x : UInt8)
    (line : UInt32) :
    c.Grows (a ++ [⟨.withOperand op x, line⟩]) p (g.writeWith op x line).code := by
  refine ⟨?_, ?_, h.constants⟩
  · simp [Emitter.writeWith, writeOp, Bytecode.write, h.bytes, Instruction.encode, Opcode.byte]
  · simp [Emitter.writeWith, writeOp, Bytecode.write, h.lines, List.replicate_succ]

/-- Counting a value changes neither bytes nor constants. -/
theorem Grows.push {g : Emitter} (h : c.Grows a p g.code) : c.Grows a p g.push.code :=
  ⟨h.bytes, h.lines, h.constants⟩

/-- **A patch changes the operand it is meant for.**  The operand of an instruction stands one byte
behind the instruction, and that is where the code before it ends. -/
theorem Grows.patch {op : OperandOp} {x : UInt8} {line : UInt32}
    (h : c.Grows (a ++ ⟨.withOperand op x, line⟩ :: b) p c') {y : UInt8} {index : Nat}
    (hi : index = c.size + byteCount a + 1) (hp : c'.patch? index y = some c'') :
    c.Grows (a ++ ⟨.withOperand op y, line⟩ :: b) p c'' := by
  obtain ⟨-, bytes, lines, constants, -⟩ := patch?_eq_some_iff.mp hp
  refine ⟨?_, ?_, by rw [constants, h.constants]⟩
  · have hlen : (c.code.toList ++ bytesOf a ++ [op.byte]).length = index := by
      simp only [hi, Bytecode.size, byteCount, List.length_append, List.length_singleton,
        Array.length_toList]
    have before : c'.code.toList =
        (c.code.toList ++ bytesOf a ++ [op.byte]) ++ x :: bytesOf b := by
      rw [h.bytes]
      simp [Instruction.encode]
    have after : c''.code.toList = (c.code.toList ++ bytesOf a ++ [op.byte]) ++ y :: bytesOf b := by
      rw [bytes, before, ← hlen, List.set_append_right _ _ (Nat.le_refl _), Nat.sub_self,
        List.set_cons_zero]
    rw [after]
    simp [Instruction.encode]
  · rw [lines, h.lines]
    simp

end Bytecode

/-! ## 4. The generator follows the scheme -/

/-- `Follows c r o`: what the generator did from the buffer `c` on, `o`, is what the scheme says,
`r`, unless the generator found its input misused. -/
inductive Follows (c : Bytecode) :
    Except CodeError (List Located × List Value) → Except CodeFailure Emitter → Prop where
  | misuse {r : Except CodeError (List Located × List Value)} (m : Misuse) :
      Follows c r (.error (.misuse m))
  | error (e : CodeError) : Follows c (.error e) (.error (.error e))
  | ok {code : List Located} {pool : List Value} {g : Emitter} :
      c.Grows code pool g.code → Follows c (.ok (code, pool)) (.ok g)

namespace Follows

variable {c : Bytecode} {r : Except CodeError (List Located × List Value)}
  {o : Except CodeFailure Emitter}

/-- Both sides go on, and the buffer that the first part has grown is grown further. -/
theorem bind {g : Emitter} {a : List Located} {p : List Value}
    {r : List Value → Except CodeError (List Located × List Value)}
    {k : List Located × List Value → Except CodeError (List Located × List Value)}
    {f : Emitter → Except CodeFailure Emitter} (hg : c.Grows a p g.code)
    (h : Follows g.code (r g.code.constants.toList) o)
    (hk : ∀ code pool g', c.Grows (a ++ code) pool g'.code → Follows c (k (code, pool)) (f g')) :
    Follows c (r p >>= k) (o >>= f) := by
  rw [hg.constants] at h
  generalize hr : r p = r₁ at h
  cases h with
  | misuse m => exact .misuse m
  | error e => exact .error e
  | ok h => exact hk _ _ _ (hg.trans h)

/-- A condition of the generator is no part of the scheme. -/
theorem require {holds : Bool} {m : Misuse} {f : Unit → Except CodeFailure Emitter}
    (h : Follows c r (f ())) : Follows c r (require holds m >>= f) := by
  cases holds with
  | true => exact h
  | false => exact .misuse m

/-- Counting a value less writes nothing. -/
theorem pop {g : Emitter} {f : Emitter → Except CodeFailure Emitter}
    (h : ∀ g' : Emitter, g'.code = g.code → Follows c r (f g')) : Follows c r (g.pop >>= f) := by
  rw [Emitter.pop]
  split
  · exact .misuse .stackUnderflow
  · exact h _ rfl

theorem writeJump {g : Emitter} {op : OperandOp} {line : UInt32}
    {f : Emitter → Except CodeFailure Emitter} (h : Follows c r (f (g.writeWith op 0 line))) :
    Follows c r (g.writeJump op line >>= f) := by
  rw [Emitter.writeJump]
  cases op.isJump with
  | true => exact h
  | false => exact .misuse .notJump

/-- **Landing a jump.**  The distance that the generator measures in its buffer, from the operand to
the end, is the size of the code in between. -/
theorem land {g : Emitter} {a b : List Located} {pool : List Value} {op : OperandOp} {line : UInt32}
    {index n : Nat} {k : UInt8 → Except CodeError (List Located × List Value)}
    {f : Emitter → Except CodeFailure Emitter}
    (h : c.Grows (a ++ ⟨.withOperand op 0, line⟩ :: b) pool g.code)
    (hi : index = c.size + byteCount a + 1) (hn : n = byteCount b)
    (hk : ∀ (d : UInt8) (g' : Emitter), c.Grows (a ++ ⟨.withOperand op d, line⟩ :: b) pool g'.code →
      Follows c (k d) (f g')) :
    Follows c (distance n >>= k) (g.land index >>= f) := by
  have sized := h.size
  simp only [byteCount_append, byteCount_cons, size_withOperand] at sized
  have measured : g.code.size - index - 1 = n := by omega
  have landed := g.land_cases index
  rw [measured] at landed
  rw [distance]
  rcases landed with ⟨outside, -⟩ | ⟨-, ⟨far, hland⟩ | ⟨near, code, hp, hland⟩⟩
  · omega
  · rw [if_neg (by omega), hland]
    exact .error _
  · rw [if_pos near, hland]
    exact hk _ _ (h.patch hi hp)

end Follows

/-- **Adding a constant is interning it**; where there is no room nothing is changed. -/
theorem addConstant_eq (c : Bytecode) (v : Value) :
    c.addConstant v = (intern c.constants.toList v).elim (none, c)
      fun p => (some p.1, { c with constants := p.2.toArray }) := by
  rw [Bytecode.addConstant, intern]
  cases c.constants.toList.findIdx? (·.sameConstant v) with
  | some i => cases h : Bytecode.poolIndex? i <;> simp [h]
  | none =>
    rw [Array.length_toList]
    cases Bytecode.poolIndex? c.constants.size with
    | none => rfl
    | some x => simp [← Array.toList_inj]

/-- The generator follows the scheme at a leaf. -/
theorem Emitter.pushValue_follows (g : Emitter) (ty : Ty) (v : Value) (line : UInt32) :
    Follows g.code (leafScheme ty v line g.code.constants.toList) (g.pushValue ty v line) := by
  have start := Bytecode.Grows.refl g.code
  have constant : Follows g.code (constantScheme v line g.code.constants.toList)
      ((g.writeConstant v line).map Emitter.push) := by
    rw [writeConstant, addConstant_eq, constantScheme]
    cases h : intern g.code.constants.toList v with
    | none => exact .error _
    | some p =>
      have pooled : g.code.Grows [] p.2 { g.code with constants := p.2.toArray } :=
        ⟨start.bytes, start.lines, rfl⟩
      exact .ok (Bytecode.Grows.writeWith (g := ⟨_, g.depth⟩) pooled .pushConstant p.1 line).push
  cases ty with
  | number => exact constant
  | string => exact constant
  | bool => exact .ok (start.write _ line).push
  | unit => exact .ok (start.write .pushUnit line).push
  | error => exact .misuse _

/-- **The generator follows the scheme**, for every tree and from every buffer. -/
theorem Typed.emit_follows (lines : LineMap) (t : Typed) :
    ∀ g : Emitter, Follows g.code (t.scheme lines g.code.constants.toList) (t.emit lines g) := by
  induction t with
  | constant i v =>
    intro g
    exact g.pushValue_follows i.ty v _
  | ident i x v =>
    intro g
    refine .require ?_
    cases v with
    | none => exact .misuse _
    | some v => exact g.pushValue_follows i.ty v _
  | unary i op e ih =>
    intro g
    refine .require (.bind (.refl g.code) (ih g) fun code p₁ g₁ h₁ => ?_)
    rw [UnaryOp.code_eq]
    exact .ok (h₁.write _ _)
  | binary i op l r ihl ihr =>
    intro g
    refine .require (.bind (.refl g.code) (ihl g) fun left p₁ g₁ h₁ => ?_)
    refine .bind h₁ (ihr g₁) fun right p₂ g₂ h₂ => .pop fun g₃ h₃ => ?_
    rw [← h₃] at h₂
    have h₄ := h₂.write (.binary op) (lines.lineOf i.span.start)
    rw [List.nil_append, List.append_assoc] at h₄
    rw [BinaryOp.code_eq]
    exact .ok h₄
  | cond i c a b ihc iha ihb =>
    intro g
    refine .require (.require (.require ?_))
    refine .bind (.refl g.code) (ihc g) fun test p₁ g₁ h₁ => .pop fun g₂ h₂ => ?_
    rw [← h₂, List.nil_append] at h₁
    -- the first jump, and the code of the branch behind it
    refine .writeJump (.bind (h₁.writeWith .jumpIfFalse 0 (lines.lineOf i.span.start)) (iha _)
      fun yes p₂ g₃ h₃ => .writeJump ?_)
    have h₄ := h₃.writeWith .jump 0 (lines.lineOf i.span.start)
    rw [List.append_assoc, List.append_assoc, List.singleton_append] at h₄
    refine .land h₄ (by rw [Emitter.nextOperand, h₁.size]) (by simp) fun toElse g₅ h₅ => ?_
    refine .bind (g := { g₅ with depth := g₂.depth }) h₅ (ihb _) fun no p₃ g₆ h₆ => ?_
    -- the second jump: everything up to the first branch is now code before it
    have regroup : ∀ (j : Located) (d : UInt8), test ++ j :: (yes ++
        ⟨.withOperand .jump d, lines.lineOf i.span.start⟩ :: no) =
        (test ++ j :: yes) ++ ⟨.withOperand .jump d, lines.lineOf i.span.start⟩ :: no := by
      intro j d
      rw [List.append_assoc, List.cons_append]
    rw [List.append_assoc, List.cons_append, List.append_assoc, List.singleton_append,
      regroup] at h₆
    rw [← bind_pure (g₆.land _)]
    refine .land h₆ ?_ rfl fun toEnd g₇ h₇ => ?_
    · rw [Emitter.nextOperand, h₃.size]
      simp
    · rw [← regroup] at h₇
      exact .ok h₇
  | lambda i =>
    intro g
    exact .error _
  | define i x e _ =>
    intro g
    exact .require (.ok (.refl g.code))

/-! ## 5. Programs -/

/-- A dropped value costs the code that drops it. -/
theorem Follows.discard {c : Bytecode} {r : Except CodeError (List Located × List Value)}
    {g : Emitter} {a : List Located} {p : List Value} {f : Emitter → Except CodeFailure Emitter}
    (lines : LineMap) (t : Typed) (h : c.Grows a p g.code)
    (hf : ∀ g' : Emitter, c.Grows (a ++ discardCode lines t) p g'.code → Follows c r (f g')) :
    Follows c r (g.discard lines t >>= f) := by
  rw [Emitter.discard]
  rw [discardCode] at hf
  cases hd : t.isDefinition with
  | true =>
    simp only [hd, if_true, List.append_nil] at hf
    exact hf g h
  | false =>
    simp only [hd, Bool.false_eq_true, if_false] at hf
    rw [Emitter.pop]
    by_cases hg : g.depth = 0
    · rw [if_pos hg]
      exact .misuse .stackUnderflow
    · rw [if_neg hg]
      exact hf _ (Bytecode.Grows.write (g := ⟨g.code, g.depth - 1⟩) h .pop _)

/-- **The generator follows the scheme**, for every list of statements. -/
theorem emitAll_follows (lines : LineMap) :
    ∀ (ts : List Typed) (g : Emitter),
      Follows g.code (schemeAll lines ts g.code.constants.toList) (emitAll lines ts g)
  | [], g => .ok (.refl g.code)
  | [t], g => t.emit_follows lines g
  | t :: u :: ts, g => by
    refine .bind (.refl g.code) (t.emit_follows lines g) fun code p₁ g₁ h₁ => ?_
    refine .discard lines t h₁ fun g₂ h₂ => ?_
    rw [← bind_pure (emitAll lines (u :: ts) g₂)]
    refine .bind h₂ (emitAll_follows lines (u :: ts) g₂) fun rest p₃ g₃ h₃ => ?_
    rw [List.nil_append, List.append_assoc] at h₃
    exact .ok h₃

/-- **The code of a program is the code that the scheme gives it**, byte for byte and line for line,
with the pool that the scheme ends with. -/
theorem scheme_of_ofProgram {lines : LineMap} {ts : List Typed} {c : Bytecode}
    (h : Bytecode.ofProgram lines ts = .ok c) :
    ∃ code, schemeAll lines ts [] = .ok (code, c.constants.toList) ∧
      c.code.toList = bytesOf code ∧ c.lines.toList = linesOf code := by
  obtain ⟨g, hg, rfl⟩ := map_eq_ok.mp h
  have follows := emitAll_follows lines ts .start
  rw [hg] at follows
  generalize hr : schemeAll lines ts Emitter.start.code.constants.toList = r at follows
  cases follows with
  | @ok code pool _ grows =>
    refine ⟨code, ?_, ?_, ?_⟩
    · rw [grows.constants]
      exact hr
    · rw [grows.bytes]
      rfl
    · rw [grows.lines]
      rfl

/-! ## 6. Reading the scheme

What can be said of the pieces once the whole has succeeded. -/

section Pieces

variable {lines : LineMap} {i : NodeInfo} {pool pool' : List Value} {code : List Located}

/-- A distance that fits an operand is not changed by it. -/
theorem distance_ok {n : Nat} {d : UInt8} (h : distance n = .ok d) : d.toNat = n := by
  rw [distance] at h
  split at h
  · next hn =>
    rw [Except.ok.injEq] at h
    rw [← h, Nat.toUInt8_eq, UInt8.toNat_ofNat_of_lt']
    exact Nat.lt_of_le_of_lt hn (by decide)
  · simp at h

theorem poolIndex_some {n : Nat} {x : UInt8} (h : Bytecode.poolIndex? n = some x) :
    x.toNat = n := by
  rw [Bytecode.poolIndex?] at h
  split at h
  · next hn =>
    rw [Option.some.injEq] at h
    rw [← h, Nat.toUInt8_eq, UInt8.toNat_ofNat_of_lt']
    exact hn
  · simp at h

/-- **The index of a constant leads back to it**, bit for bit, and no constant that was in the pool
has moved. -/
theorem intern_some {v : Value} {x : UInt8} (h : intern pool v = some (x, pool')) :
    pool <+: pool' ∧ pool'[x.toNat]? = some v := by
  rw [intern] at h
  split at h
  · next n hn =>
    obtain ⟨y, hy, heq⟩ := Option.map_eq_some_iff.mp h
    rw [Prod.mk.injEq] at heq
    obtain ⟨rfl, rfl⟩ := heq
    obtain ⟨hlt, hsame, -⟩ := List.findIdx?_eq_some_iff_getElem.mp hn
    refine ⟨List.prefix_refl pool, ?_⟩
    rw [poolIndex_some hy, List.getElem?_eq_getElem hlt, Value.eq_of_sameConstant hsame]
  · obtain ⟨y, hy, heq⟩ := Option.map_eq_some_iff.mp h
    rw [Prod.mk.injEq] at heq
    obtain ⟨rfl, rfl⟩ := heq
    refine ⟨List.prefix_append pool [v], ?_⟩
    rw [poolIndex_some hy, List.getElem?_concat_length]

/-- `Pushes pool i v`: the instruction pushes the value, with the constants of the pool. -/
inductive Pushes (pool : List Value) : Instruction → Value → Prop where
  | constant {x : UInt8} {v : Value} : pool[x.toNat]? = some v →
      Pushes pool (.withOperand .pushConstant x) v
  | true : Pushes pool (.simple .pushTrue) (.bool true)
  | false : Pushes pool (.simple .pushFalse) (.bool false)
  | unit : Pushes pool (.simple .pushUnit) .unit

theorem Pushes.mono {v : Value} {i : Instruction} (h : Pushes pool i v) (hp : pool <+: pool') :
    Pushes pool' i v := by
  cases h with
  | constant hx =>
    obtain ⟨rest, rfl⟩ := hp
    obtain ⟨hlt, -⟩ := List.getElem?_eq_some_iff.mp hx
    exact .constant (by rw [List.getElem?_append_left hlt, hx])
  | true => exact .true
  | false => exact .false
  | unit => exact .unit

/-- Where a constant has code, it has an index. -/
theorem constantScheme_ok {v : Value} {line : UInt32}
    (h : constantScheme v line pool = .ok (code, pool')) :
    ∃ x, intern pool v = some (x, pool') ∧ code = [⟨.withOperand .pushConstant x, line⟩] := by
  rw [constantScheme] at h
  split at h
  · next x p hx =>
    rw [Except.ok.injEq, Prod.mk.injEq] at h
    obtain ⟨rfl, rfl⟩ := h
    exact ⟨x, hx, rfl⟩
  · simp at h

/-- Everything that the code of a leaf can be: an instruction that pushes an interned constant; or
it does without the pool, and is at most one operation. -/
theorem leafScheme_cases {ty : Ty} {v : Value} {line : UInt32}
    (h : leafScheme ty v line pool = .ok (code, pool')) :
    (∃ x, intern pool v = some (x, pool') ∧ code = [⟨.withOperand .pushConstant x, line⟩]) ∨
      pool' = pool ∧ (code = [] ∨ ∃ op, code = [⟨.simple op, line⟩]) := by
  cases ty with
  | number => exact Or.inl (constantScheme_ok h)
  | string => exact Or.inl (constantScheme_ok h)
  | bool =>
    obtain ⟨rfl, rfl⟩ := Prod.mk.inj (Except.ok.inj h)
    exact Or.inr ⟨rfl, Or.inr ⟨_, rfl⟩⟩
  | unit =>
    obtain ⟨rfl, rfl⟩ := Prod.mk.inj (Except.ok.inj h)
    exact Or.inr ⟨rfl, Or.inr ⟨_, rfl⟩⟩
  | error =>
    obtain ⟨rfl, rfl⟩ := Prod.mk.inj (Except.ok.inj h)
    exact Or.inr ⟨rfl, Or.inl rfl⟩

/-- **A leaf at the type of its value is one instruction that pushes the value.** -/
theorem leafScheme_ok {v : Value} {line : UInt32}
    (h : leafScheme v.ty v line pool = .ok (code, pool')) :
    ∃ i, code = [⟨i, line⟩] ∧ Pushes pool' i v := by
  cases v with
  | number n =>
    obtain ⟨x, hx, hcode⟩ := constantScheme_ok h
    exact ⟨_, hcode, .constant (intern_some hx).2⟩
  | str text =>
    obtain ⟨x, hx, hcode⟩ := constantScheme_ok h
    exact ⟨_, hcode, .constant (intern_some hx).2⟩
  | bool b =>
    simp only [Value.ty, leafScheme, Except.ok.injEq, Prod.mk.injEq] at h
    rw [← h.1]
    cases b with
    | true => exact ⟨_, rfl, .true⟩
    | false => exact ⟨_, rfl, .false⟩
  | unit =>
    simp only [Value.ty, leafScheme, Except.ok.injEq, Prod.mk.injEq] at h
    exact ⟨_, h.1.symm, .unit⟩

theorem scheme_unary_ok {op : UnaryOp} {e : Typed}
    (h : (Typed.unary i op e).scheme lines pool = .ok (code, pool')) :
    ∃ operand, e.scheme lines pool = .ok (operand, pool') ∧
      code = operand ++ [⟨.simple (.unary op), lines.lineOf i.span.start⟩] := by
  simp only [Typed.scheme, bind_eq_ok, Prod.exists, pure_eq, Except.ok.injEq, Prod.mk.injEq] at h
  obtain ⟨operand, p₁, he, rfl, rfl⟩ := h
  exact ⟨operand, he, rfl⟩

theorem scheme_binary_ok {op : BinaryOp} {l r : Typed}
    (h : (Typed.binary i op l r).scheme lines pool = .ok (code, pool')) :
    ∃ left p₁ right, l.scheme lines pool = .ok (left, p₁) ∧
      r.scheme lines p₁ = .ok (right, pool') ∧
      code = left ++ (right ++ [⟨.simple (.binary op), lines.lineOf i.span.start⟩]) := by
  simp only [Typed.scheme, bind_eq_ok, Prod.exists, pure_eq, Except.ok.injEq, Prod.mk.injEq] at h
  obtain ⟨left, p₁, hl, right, p₂, hr, rfl, rfl⟩ := h
  exact ⟨left, p₁, right, hl, hr, rfl⟩

/-- Where a conditional has code, so have its three parts, and both distances fit. -/
theorem scheme_cond_ok {c a b : Typed}
    (h : (Typed.cond i c a b).scheme lines pool = .ok (code, pool')) :
    ∃ test p₁ yes p₂ no toElse toEnd, c.scheme lines pool = .ok (test, p₁) ∧
      a.scheme lines p₁ = .ok (yes, p₂) ∧ b.scheme lines p₂ = .ok (no, pool') ∧
      UInt8.toNat toElse = byteCount yes + 2 ∧ UInt8.toNat toEnd = byteCount no ∧
      code = test ++ ⟨.withOperand .jumpIfFalse toElse, lines.lineOf i.span.start⟩ ::
        (yes ++ ⟨.withOperand .jump toEnd, lines.lineOf i.span.start⟩ :: no) := by
  simp only [Typed.scheme, bind_eq_ok, Prod.exists, pure_eq, Except.ok.injEq, Prod.mk.injEq] at h
  obtain ⟨test, p₁, hc, yes, p₂, ha, toElse, h₁, no, p₃, hb, toEnd, h₂, rfl, rfl⟩ := h
  exact ⟨test, p₁, yes, p₂, no, toElse, toEnd, hc, ha, hb, distance_ok h₁, distance_ok h₂, rfl⟩

/-- A definition has no code. -/
theorem scheme_define_ok {x : String} {e : Typed}
    (h : (Typed.define i x e).scheme lines pool = .ok (code, pool')) : code = [] := by
  rw [Typed.scheme, Except.ok.injEq, Prod.mk.injEq] at h
  exact h.1.symm

theorem schemeAll_nil_ok (h : schemeAll lines [] pool = .ok (code, pool')) : code = [] := by
  rw [schemeAll, Except.ok.injEq, Prod.mk.injEq] at h
  exact h.1.symm

/-- Where statements have code, so have the first one and the rest. -/
theorem schemeAll_cons_ok {t u : Typed} {ts : List Typed}
    (h : schemeAll lines (t :: u :: ts) pool = .ok (code, pool')) :
    ∃ first p₁ rest, t.scheme lines pool = .ok (first, p₁) ∧
      schemeAll lines (u :: ts) p₁ = .ok (rest, pool') ∧
      code = first ++ (discardCode lines t ++ rest) := by
  simp only [schemeAll, bind_eq_ok, Prod.exists, pure_eq, Except.ok.injEq, Prod.mk.injEq] at h
  obtain ⟨first, p₁, ht, rest, p₂, hrest, rfl, rfl⟩ := h
  exact ⟨first, p₁, rest, ht, hrest, rfl⟩

end Pieces

/-! ## 7. What happens to the pool -/

section Pool

variable {P : List Value → Prop} {lines : LineMap}

theorem leafScheme_keeps
    (step : ∀ {pool pool' v x}, intern pool v = some (x, pool') → P pool → P pool')
    {ty : Ty} {v : Value} {line : UInt32} {pool pool' : List Value} {code : List Located}
    (h : leafScheme ty v line pool = .ok (code, pool')) (hp : P pool) : P pool' := by
  rcases leafScheme_cases h with ⟨x, hx, -⟩ | ⟨rfl, -⟩
  · exact step hx hp
  · exact hp

/-- **What interning a constant keeps of the pool, the code of a tree keeps.** -/
theorem Typed.scheme_keeps
    (step : ∀ {pool pool' v x}, intern pool v = some (x, pool') → P pool → P pool') {t : Typed} :
    ∀ {pool pool' : List Value} {code : List Located}, t.scheme lines pool = .ok (code, pool') →
      P pool → P pool' := by
  induction t with
  | constant i v =>
    intro pool pool' code h hp
    exact leafScheme_keeps step h hp
  | ident i x v =>
    intro pool pool' code h hp
    cases v with
    | some v => exact leafScheme_keeps step h hp
    | none => exact (Prod.mk.inj (Except.ok.inj h)).2 ▸ hp
  | unary i op e ih =>
    intro pool pool' code h hp
    obtain ⟨operand, he, -⟩ := scheme_unary_ok h
    exact ih he hp
  | binary i op l r ihl ihr =>
    intro pool pool' code h hp
    obtain ⟨left, p₁, right, hl, hr, -⟩ := scheme_binary_ok h
    exact ihr hr (ihl hl hp)
  | cond i c a b ihc iha ihb =>
    intro pool pool' code h hp
    obtain ⟨test, p₁, yes, p₂, no, toElse, toEnd, hc, ha, hb, -⟩ := scheme_cond_ok h
    exact ihb hb (iha ha (ihc hc hp))
  | lambda i =>
    intro pool pool' code h
    simp [Typed.scheme] at h
  | define i x e _ =>
    intro pool pool' code h hp
    exact (Prod.mk.inj (Except.ok.inj h)).2 ▸ hp

theorem schemeAll_keeps
    (step : ∀ {pool pool' v x}, intern pool v = some (x, pool') → P pool → P pool') :
    ∀ {ts : List Typed} {pool pool' : List Value} {code : List Located},
      schemeAll lines ts pool = .ok (code, pool') → P pool → P pool'
  | [], pool, pool', code, h, hp => (Prod.mk.inj (Except.ok.inj h)).2 ▸ hp
  | [t], pool, pool', code, h, hp => Typed.scheme_keeps step h hp
  | t :: u :: ts, pool, pool', code, h, hp => by
    obtain ⟨first, p₁, rest, ht, hrest, -⟩ := schemeAll_cons_ok h
    exact schemeAll_keeps step hrest (Typed.scheme_keeps step ht hp)

end Pool

/-- **The pool after a tree is the pool before it with constants behind it.** -/
theorem Typed.scheme_grows {lines : LineMap} {t : Typed} {pool pool' : List Value}
    {code : List Located} (h : t.scheme lines pool = .ok (code, pool')) : pool <+: pool' :=
  scheme_keeps (P := fun p => pool <+: p) (fun hx hp => hp.trans (intern_some hx).1) h
    (List.prefix_refl pool)

theorem schemeAll_grows {lines : LineMap} {ts : List Typed} {pool pool' : List Value}
    {code : List Located} (h : schemeAll lines ts pool = .ok (code, pool')) : pool <+: pool' :=
  schemeAll_keeps (P := fun p => pool <+: p) (fun hx hp => hp.trans (intern_some hx).1) h
    (List.prefix_refl pool)

end ExprLang
