/-
# The code of a tree, written down

`Typed.scheme` still fails where the generator does, and it hands the pool from piece to piece.
Here the code of a tree is a plain value: `Typed.stream` is a list of numbers, each with its line,
that is put together from the lists of the subtrees and nothing else.  It is defined for every tree.

* A **distance** is the length of a list.  Nothing is rounded to a byte, so where the generated code
  agrees with it, byte for number, no distance was cut off and no placeholder was left.
* A **slot** is a position in the list of the constants that come before, each taken once
  (`pooled`).  Which constants these are is read off the tree (`Typed.poolValues`).

`Typed.stream_of_scheme` says that the two descriptions agree wherever the first one gives code.
-/
import ExprLang.Proofs.Scheme

namespace ExprLang

/-! ## 1. The pool -/

/-- Where a constant stands in the pool; if it is not there, the next free slot. -/
def slot (pool : List Value) (v : Value) : Nat := pool.findIdx (·.sameConstant v)

/-- The pool with a constant in it. -/
def pooledOnce (pool : List Value) (v : Value) : List Value :=
  if pool.any (·.sameConstant v) then pool else pool ++ [v]

/-- The pool with constants in it, added from left to right. -/
def pooled (pool vs : List Value) : List Value := vs.foldl pooledOnce pool

theorem pooled_append (pool vs ws : List Value) :
    pooled pool (vs ++ ws) = pooled (pooled pool vs) ws := List.foldl_append

/-- The constants that a leaf of the given type takes from the pool. -/
def leafPoolValues (ty : Ty) (v : Value) : List Value :=
  match ty with
  | .number | .string => [v]
  | .bool | .unit | .error => []

/-- The constants that the code of a tree takes from the pool, in its order. -/
def Typed.poolValues : Typed → List Value
  | .constant i v => leafPoolValues i.ty v
  | .ident i _ (some v) => leafPoolValues i.ty v
  | .ident _ _ none => []
  | .unary _ _ e => e.poolValues
  | .binary _ _ l r => l.poolValues ++ r.poolValues
  | .cond _ c a b => c.poolValues ++ (a.poolValues ++ b.poolValues)
  | .lambda _ => []
  | .define .. => []

/-! ## 2. The stream -/

/-- Bytes, as numbers, with their lines. -/
abbrev Stream := List (Nat × UInt32)

def SimpleOp.stream (op : SimpleOp) (line : UInt32) : Stream := [(op.byte.toNat, line)]

def OperandOp.stream (op : OperandOp) (operand : Nat) (line : UInt32) : Stream :=
  [(op.byte.toNat, line), (operand, line)]

/-- The code of a leaf, in the way of its type. -/
def leafStream (ty : Ty) (v : Value) (line : UInt32) (pool : List Value) : Stream :=
  match ty with
  | .number | .string => OperandOp.pushConstant.stream (slot pool v) line
  | .bool => (if v = .bool true then SimpleOp.pushTrue else .pushFalse).stream line
  | .unit => SimpleOp.pushUnit.stream line
  | .error => []

/-- The code of a tree behind code that has filled the pool so far. -/
def Typed.stream (lines : LineMap) : Typed → List Value → Stream
  | .constant i v, pool => leafStream i.ty v (lines.lineOf i.span.start) pool
  | .ident i _ (some v), pool => leafStream i.ty v (lines.lineOf i.span.start) pool
  | .ident _ _ none, _ => []
  | .unary i op e, pool =>
    e.stream lines pool ++ (SimpleOp.unary op).stream (lines.lineOf i.span.start)
  | .binary i op l r, pool =>
    l.stream lines pool ++ (r.stream lines (pooled pool l.poolValues) ++
      (SimpleOp.binary op).stream (lines.lineOf i.span.start))
  | .cond i c a b, pool =>
    let line := lines.lineOf i.span.start
    let yes := a.stream lines (pooled pool c.poolValues)
    let no := b.stream lines (pooled pool (c.poolValues ++ a.poolValues))
    c.stream lines pool ++ (OperandOp.jumpIfFalse.stream (yes.length + 2) line ++
      (yes ++ (OperandOp.jump.stream no.length line ++ no)))
  | .lambda _, _ => []
  | .define .., _ => []

/-- The code that drops the value of a statement; a definition has none. -/
def discardStream (lines : LineMap) (t : Typed) : Stream :=
  if t.isDefinition then [] else SimpleOp.pop.stream (lines.lineOf t.span.start)

/-- The code of a list of statements. -/
def streamAll (lines : LineMap) : List Typed → List Value → Stream
  | [], _ => []
  | [t], pool => t.stream lines pool
  | t :: u :: ts, pool => t.stream lines pool ++ (discardStream lines t ++
      streamAll lines (u :: ts) (pooled pool t.poolValues))

/-! ## 3. Located instructions as a stream -/

/-- The bytes of located instructions, as numbers, with their lines. -/
def streamOf (code : List Located) : Stream :=
  code.flatMap fun l => l.instruction.encode.map fun b => (b.toNat, l.line)

theorem streamOf_append (a b : List Located) : streamOf (a ++ b) = streamOf a ++ streamOf b :=
  List.flatMap_append

theorem streamOf_withOperand (op : OperandOp) (x : UInt8) (line : UInt32) (code : List Located) :
    streamOf (⟨.withOperand op x, line⟩ :: code) = op.stream x.toNat line ++ streamOf code := rfl

/-- The first parts of a stream are the bytes of the code. -/
theorem fst_streamOf (code : List Located) :
    (streamOf code).map Prod.fst = (bytesOf code).map UInt8.toNat := by
  rw [streamOf, bytesOf, List.map_flatMap, List.map_flatMap]
  simp only [List.map_map]
  rfl

theorem snd_streamOf (code : List Located) : (streamOf code).map Prod.snd = linesOf code := by
  rw [streamOf, linesOf, List.map_flatMap]
  simp only [List.map_map, ← Instruction.length_encode]
  simp only [Function.comp_def, List.map_const']

theorem length_streamOf (code : List Located) : (streamOf code).length = byteCount code := by
  rw [byteCount, ← List.length_map (f := UInt8.toNat), ← fst_streamOf, List.length_map]

/-! ## 4. The scheme gives the stream -/

/-- An interned constant has the slot of the list, and is in the pool once. -/
theorem slot_of_intern {pool pool' : List Value} {v : Value} {x : UInt8}
    (h : intern pool v = some (x, pool')) : x.toNat = slot pool v ∧ pool' = pooledOnce pool v := by
  rw [intern] at h
  split at h
  · next n hn =>
    obtain ⟨y, hy, heq⟩ := Option.map_eq_some_iff.mp h
    obtain ⟨rfl, rfl⟩ := Prod.mk.inj heq
    obtain ⟨hlt, hfind⟩ := List.findIdx?_eq_some_iff_findIdx_eq.mp hn
    have found : pool.any (·.sameConstant v) = true := by
      rw [List.any_eq_true, ← List.findIdx_lt_length, hfind]
      exact hlt
    rw [poolIndex_some hy, slot, hfind, pooledOnce, if_pos found]
    exact ⟨rfl, rfl⟩
  · next hn =>
    obtain ⟨y, hy, heq⟩ := Option.map_eq_some_iff.mp h
    obtain ⟨rfl, rfl⟩ := Prod.mk.inj heq
    have absent := List.findIdx?_eq_none_iff.mp hn
    have new : ¬ pool.any (·.sameConstant v) = true := by
      simpa using absent
    rw [poolIndex_some hy, slot, List.findIdx_eq_length_of_false absent, pooledOnce, if_neg new]
    exact ⟨rfl, rfl⟩

theorem constantStream_of_scheme {pool pool' : List Value} {v : Value} {line : UInt32}
    {code : List Located} (h : constantScheme v line pool = .ok (code, pool')) :
    streamOf code = OperandOp.pushConstant.stream (slot pool v) line ∧
      pool' = pooledOnce pool v := by
  obtain ⟨x, hx, rfl⟩ := constantScheme_ok h
  obtain ⟨hslot, hpool⟩ := slot_of_intern hx
  exact ⟨hslot ▸ rfl, hpool⟩

/-- The code of a leaf is its stream, and the constant of the leaf is in the pool. -/
theorem leafStream_of_scheme {ty : Ty} {v : Value} {line : UInt32} {pool pool' : List Value}
    {code : List Located} (h : leafScheme ty v line pool = .ok (code, pool')) :
    streamOf code = leafStream ty v line pool ∧ pool' = pooled pool (leafPoolValues ty v) := by
  cases ty with
  | number => exact constantStream_of_scheme h
  | string => exact constantStream_of_scheme h
  | bool =>
    obtain ⟨rfl, rfl⟩ := Prod.mk.inj (Except.ok.inj h)
    exact ⟨rfl, rfl⟩
  | unit =>
    obtain ⟨rfl, rfl⟩ := Prod.mk.inj (Except.ok.inj h)
    exact ⟨rfl, rfl⟩
  | error =>
    obtain ⟨rfl, rfl⟩ := Prod.mk.inj (Except.ok.inj h)
    exact ⟨rfl, rfl⟩

/-- **Where a tree has code, its code is its stream**, and the pool has the constants of the
tree. -/
theorem Typed.stream_of_scheme {lines : LineMap} {t : Typed} : ∀ {pool pool' : List Value}
    {code : List Located}, t.scheme lines pool = .ok (code, pool') →
    streamOf code = t.stream lines pool ∧ pool' = pooled pool t.poolValues := by
  induction t with
  | constant i v =>
    intro pool pool' code h
    exact leafStream_of_scheme h
  | ident i x v =>
    intro pool pool' code h
    cases v with
    | some v => exact leafStream_of_scheme h
    | none =>
      obtain ⟨rfl, rfl⟩ := Prod.mk.inj (Except.ok.inj h)
      exact ⟨rfl, rfl⟩
  | unary i op e ih =>
    intro pool pool' code h
    obtain ⟨operand, he, rfl⟩ := scheme_unary_ok h
    obtain ⟨hstream, hpool⟩ := ih he
    refine ⟨?_, hpool⟩
    rw [streamOf_append, hstream]
    rfl
  | binary i op l r ihl ihr =>
    intro pool pool' code h
    obtain ⟨left, p₁, right, hl, hr, rfl⟩ := scheme_binary_ok h
    obtain ⟨hleft, rfl⟩ := ihl hl
    obtain ⟨hright, rfl⟩ := ihr hr
    refine ⟨?_, (pooled_append ..).symm⟩
    rw [streamOf_append, streamOf_append, hleft, hright]
    rfl
  | cond i c a b ihc iha ihb =>
    intro pool pool' code h
    obtain ⟨test, p₁, yes, p₂, no, toElse, toEnd, hc, ha, hb, hElse, hEnd, rfl⟩ := scheme_cond_ok h
    obtain ⟨htest, rfl⟩ := ihc hc
    obtain ⟨hyes, rfl⟩ := iha ha
    obtain ⟨hno, rfl⟩ := ihb hb
    rw [← length_streamOf, hyes] at hElse
    rw [← length_streamOf, hno] at hEnd
    refine ⟨?_, ?_⟩
    · rw [streamOf_append, streamOf_withOperand, streamOf_append, streamOf_withOperand, htest, hyes,
        hno, hElse, hEnd, Typed.stream, pooled_append]
    · rw [Typed.poolValues, pooled_append, pooled_append]
  | lambda i =>
    intro pool pool' code h
    cases h
  | define i x e _ =>
    intro pool pool' code h
    obtain ⟨rfl, rfl⟩ := Prod.mk.inj (Except.ok.inj h)
    exact ⟨rfl, rfl⟩

theorem streamOf_discardCode (lines : LineMap) (t : Typed) :
    streamOf (discardCode lines t) = discardStream lines t := by
  rw [discardCode, discardStream]
  cases t.isDefinition with
  | true => rfl
  | false => rfl

/-- **Where statements have code, their code is their stream.** -/
theorem streamAll_of_schemeAll {lines : LineMap} : ∀ {ts : List Typed} {pool pool' : List Value}
    {code : List Located}, schemeAll lines ts pool = .ok (code, pool') →
    streamOf code = streamAll lines ts pool ∧ pool' = pooled pool (ts.flatMap Typed.poolValues)
  | [], pool, pool', code, h => by
    obtain ⟨rfl, rfl⟩ := Prod.mk.inj (Except.ok.inj h)
    exact ⟨rfl, rfl⟩
  | [t], pool, pool', code, h => by
    rw [List.flatMap_singleton]
    exact Typed.stream_of_scheme h
  | t :: u :: ts, pool, pool', code, h => by
    obtain ⟨first, p₁, rest, hfirst, hrest, rfl⟩ := schemeAll_cons_ok h
    obtain ⟨hstream, rfl⟩ := Typed.stream_of_scheme hfirst
    obtain ⟨hstreams, rfl⟩ := streamAll_of_schemeAll hrest
    refine ⟨?_, ?_⟩
    · rw [streamOf_append, streamOf_append, hstream, streamOf_discardCode, hstreams, streamAll]
    · rw [List.flatMap_cons (x := t), pooled_append]

/-! ## 5. Generated code -/

/-- The code is the stream, byte for number and line for line, and the pool is `pool`. -/
structure Bytecode.Carries (c : Bytecode) (stream : Stream) (pool : List Value) : Prop where
  bytes : c.code.toList.map UInt8.toNat = stream.map Prod.fst
  lines : c.lines.toList = stream.map Prod.snd
  constants : c.constants.toList = pool

/-- **Generated code is the stream of its trees**, and nothing else. -/
theorem carries_of_ofProgram {lines : LineMap} {ts : List Typed} {c : Bytecode}
    (h : Bytecode.ofProgram lines ts = .ok c) :
    c.Carries (streamAll lines ts []) (pooled [] (ts.flatMap Typed.poolValues)) := by
  obtain ⟨code, hscheme, hbytes, hlines⟩ := scheme_of_ofProgram h
  obtain ⟨hstream, hpool⟩ := streamAll_of_schemeAll hscheme
  refine ⟨?_, ?_, hpool⟩
  · rw [hbytes, ← fst_streamOf, hstream]
  · rw [hlines, ← snd_streamOf, hstream]

/-- **Generated code is put together from the code of its parts.**  Whatever trees code is generated
for, and with whatever lines: if there is code, it is the stream of the trees. -/
theorem Session.generated_code_is_compositional (g : Session) :
    (∀ ts ty c, g.generateProgram ts = .ok (ty, c) →
      c.Carries (streamAll g.lines ts []) (pooled [] (ts.flatMap Typed.poolValues))) ∧
    ∀ t ty c, g.generate t = .ok (ty, c) →
      c.Carries (t.stream g.lines []) (pooled [] t.poolValues) := by
  have program : ∀ ts ty c, g.generateProgram ts = .ok (ty, c) →
      c.Carries (streamAll g.lines ts []) (pooled [] (ts.flatMap Typed.poolValues)) :=
    fun ts ty c h => carries_of_ofProgram (generateProgram_ok h).1
  refine ⟨program, fun t ty c h => ?_⟩
  rw [generate_eq_generateProgram] at h
  have single := program [t] ty c h
  rw [List.flatMap_singleton] at single
  exact single

/-- `x; if true then (if false then y else x) else y` over two lines, with `x` and `y` bound to two
numbers: an `if` inside a branch of another, and constants that are used again. -/
theorem Session.generated_code_is_compositional_nested :
    let x := Typed.ident ⟨.number, ⟨0, 1⟩⟩ "x" (some (.number ⟨0⟩))
    let y := Typed.ident ⟨.number, ⟨3, 4⟩⟩ "y" (some (.number ⟨1⟩))
    let branch (b : Bool) := Typed.cond ⟨.number, ⟨3, 9⟩⟩ (.constant ⟨.bool, ⟨6, 9⟩⟩ (.bool b))
    let g : Session := ⟨.forbid, .empty, ⟨[0, 3]⟩⟩
    ∃ c, g.generateProgram [x, branch true (branch false y x) y] = .ok (.number, c) ∧
      c.code.toList.map UInt8.toNat =
        [0x01, 0, 0x05, 0x02, 0x41, 11, 0x03, 0x41, 4, 0x01, 1, 0x40, 2, 0x01, 0, 0x40, 2,
          0x01, 1] ∧
      c.lines.toList = [1, 1, 1, 2, 2, 2, 2, 2, 2, 2, 2, 2, 2, 1, 1, 2, 2, 2, 2] ∧
      c.constants.toList = [.number ⟨0⟩, .number ⟨1⟩] := by
  intro x y branch g
  obtain ⟨c, generated⟩ : ∃ c, g.generateProgram [x, branch true (branch false y x) y] =
      .ok (.number, c) := ⟨_, by cbv⟩
  obtain ⟨bytes, lines, constants⟩ := (generated_code_is_compositional g).1 _ _ _ generated
  exact ⟨c, generated, bytes.trans (by decide), lines.trans (by decide),
    constants.trans (by decide)⟩

end ExprLang
