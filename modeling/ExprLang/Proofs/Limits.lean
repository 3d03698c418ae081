/-
# The limits of the format

An operand is one byte, so a pool has at most 256 entries and a jump skips at most 255 bytes.
Whether a program is within these limits can be read off its trees, before any code is written.
`Typed.codeSize` says how long the code of a tree will be, and `Typed.limitTests` lists the places
where a limit can be hit, in the order in which the generator gets to them: each constant as it goes
into the pool, each jump when the code that it skips is complete.  `firstFiring` makes these tests
one by one.

**The generator fails where the first test fires, and nowhere else** (`Typed.WellTyped.heeds`).  The
distances that it measures in its buffer are the sizes that the trees announce, and its pool is the
pool that the tests fill.

In the compiler the two failures are `TooManyConstants` and `JumpTooFar`.
-/
import ExprLang.Proofs.Contract
import ExprLang.Proofs.Stream

namespace ExprLang

/-! ## 1. Sizes -/

/-- The size of the code of a leaf: a constant of the pool needs an operand. -/
def leafSize : Ty → Nat
  | .number | .string => 2
  | .bool | .unit => 1
  | .error => 0

/-- The size of the code of a tree. -/
def Typed.codeSize : Typed → Nat
  | .constant i _ => leafSize i.ty
  | .ident i _ _ => leafSize i.ty
  | .unary _ _ e => e.codeSize + 1
  | .binary _ _ l r => l.codeSize + r.codeSize + 1
  | .cond _ c a b => c.codeSize + 2 + a.codeSize + 2 + b.codeSize
  | .lambda _ => 0
  | .define .. => 0

/-- The sizes of all statements together. -/
def totalSize (ts : List Typed) : Nat := ts.foldr (fun t n => t.codeSize + n) 0

/-- How many values are dropped between statements: all but the last, and but those of
definitions. -/
def popCount (ts : List Typed) : Nat := ts.dropLast.countP fun t => !t.isDefinition

/-! ## 2. Tests -/

/-- A place where a limit can be hit. -/
inductive LimitTest where
  /-- A constant is taken from the pool. -/
  | constant (v : Value)
  /-- A jump skips so many bytes. -/
  | jump (distance : Nat)
  deriving DecidableEq, Repr

/-- The tests of a tree, in the order of its code. -/
def Typed.limitTests : Typed → List LimitTest
  | .constant i v => (leafPoolValues i.ty v).map .constant
  | .ident i _ (some v) => (leafPoolValues i.ty v).map .constant
  | .ident _ _ none => []
  | .unary _ _ e => e.limitTests
  | .binary _ _ l r => l.limitTests ++ r.limitTests
  | .cond _ c a b => c.limitTests ++ (a.limitTests ++ .jump (a.codeSize + 2) ::
      (b.limitTests ++ [.jump b.codeSize]))
  | .lambda _ => []
  | .define .. => []

def Value.isNaN : Value → Bool
  | .number n => n.isNaN
  | _ => false

/-- An entry of the pool stands for every constant that is the same bit for bit; a NaN is never
shared. -/
def HasEntry (pool : List Value) (v : Value) : Prop := v ∈ pool ∧ v.isNaN = false

instance (pool : List Value) (v : Value) : Decidable (HasEntry pool v) :=
  inferInstanceAs (Decidable (_ ∧ _))

namespace LimitTest

/-- The test fails: the constant would be the 257th entry of the pool, or the jump is too long. -/
def Fires (pool : List Value) : LimitTest → Prop
  | .constant v => pool.length = 256 ∧ ¬ HasEntry pool v
  | .jump distance => 255 < distance

instance (pool : List Value) : (test : LimitTest) → Decidable (test.Fires pool)
  | .constant _ => inferInstanceAs (Decidable (_ ∧ _))
  | .jump _ => inferInstanceAs (Decidable (_ < _))

/-- The pool after the test. -/
def enter (pool : List Value) : LimitTest → List Value
  | .constant v => if HasEntry pool v then pool else pool ++ [v]
  | .jump _ => pool

def error : LimitTest → CodeError
  | .constant _ => .tooManyConstants
  | .jump distance => .jumpTooFar distance

end LimitTest

/-- Makes tests from left to right, and gives the first that fires. -/
def firstFiring (pool : List Value) : List LimitTest → Option LimitTest
  | [] => none
  | test :: tests => if test.Fires pool then some test else firstFiring (test.enter pool) tests

/-- The pool after tests. -/
def enterAll (pool : List Value) (tests : List LimitTest) : List Value :=
  tests.foldl LimitTest.enter pool

theorem firstFiring_append (pool : List Value) (a b : List LimitTest) :
    firstFiring pool (a ++ b) = (firstFiring pool a).or (firstFiring (enterAll pool a) b) := by
  induction a generalizing pool with
  | nil => rfl
  | cons test a ih =>
    rw [List.cons_append, firstFiring, firstFiring]
    split
    · rfl
    · exact ih (test.enter pool)

theorem enterAll_append (pool : List Value) (a b : List LimitTest) :
    enterAll pool (a ++ b) = enterAll (enterAll pool a) b := List.foldl_append

/-! ## 3. The pool -/

theorem sameConstant_iff {v w : Value} : w.sameConstant v = true ↔ w = v ∧ v.isNaN = false := by
  have self : v.sameConstant v = true ↔ v.isNaN = false := by
    rw [Value.sameConstant_self_iff]
    cases v <;> simp [Value.isNaN]
  constructor
  · intro h
    obtain rfl := Value.eq_of_sameConstant h
    exact ⟨rfl, self.mp h⟩
  · rintro ⟨rfl, h⟩
    exact self.mpr h

/-- A constant with an entry is found there, whatever the pool, and the pool stays. -/
theorem intern_of_hasEntry {pool : List Value} {v : Value} (h : HasEntry pool v)
    (hp : pool.length ≤ 256) : ∃ x, intern pool v = some (x, pool) := by
  rw [intern]
  cases hf : pool.findIdx? (·.sameConstant v) with
  | none =>
    have absent := List.findIdx?_eq_none_iff.mp hf v h.1
    rw [sameConstant_iff.mpr ⟨rfl, h.2⟩] at absent
    cases absent
  | some i =>
    obtain ⟨hlt, -⟩ := List.findIdx?_eq_some_iff_findIdx_eq.mp hf
    have room : i < 256 := Nat.lt_of_lt_of_le hlt hp
    exact ⟨i.toUInt8, by simp [Bytecode.poolIndex?, room]⟩

/-- A constant without an entry gets the next one, if there is room. -/
theorem intern_of_new {pool : List Value} {v : Value} (h : ¬ HasEntry pool v) :
    intern pool v = (Bytecode.poolIndex? pool.length).map (·, pool ++ [v]) := by
  have absent : pool.findIdx? (·.sameConstant v) = none := by
    refine List.findIdx?_eq_none_iff.mpr fun w hw => Bool.eq_false_iff.mpr fun hsame => ?_
    obtain ⟨rfl, hv⟩ := sameConstant_iff.mp hsame
    exact h ⟨hw, hv⟩
  rw [intern, absent]

/-! ## 4. The scheme heeds the tests -/

/-- `Heeds pool tests size r`: the scheme stops at the first test that fires; if none does, it gives
code of the size, and its pool is the pool after the tests. -/
inductive Heeds (pool : List Value) (tests : List LimitTest) (size : Nat) :
    Except CodeError (List Located × List Value) → Prop where
  | error {test : LimitTest} : firstFiring pool tests = some test →
      Heeds pool tests size (.error test.error)
  | ok {code : List Located} : firstFiring pool tests = none → byteCount code = size →
      (enterAll pool tests).length ≤ 256 → Heeds pool tests size (.ok (code, enterAll pool tests))

namespace Heeds

variable {pool : List Value} {tests a b : List LimitTest} {size n : Nat}
  {r : Except CodeError (List Located × List Value)}

theorem gives {code : List Located} {pool' : List Value} (h : firstFiring pool tests = none)
    (hpool : enterAll pool tests = pool') (hsize : byteCount code = size)
    (hp : pool'.length ≤ 256) :
    Heeds pool tests size (.ok (code, pool')) := by
  subst hpool
  exact .ok h hsize hp

/-- The tests of the second part are made with the pool that the first part leaves. -/
theorem bind {k : List Located × List Value → Except CodeError (List Located × List Value)}
    (h : Heeds pool a n r) (hk : ∀ code pool', byteCount code = n → pool'.length ≤ 256 →
      Heeds pool' b size (k (code, pool'))) : Heeds pool (a ++ b) size (r >>= k) := by
  have both := firstFiring_append pool a b
  cases h with
  | error hfires => exact .error (by rw [both, hfires]; rfl)
  | @ok code hnone hcode hp =>
    rw [hnone, Option.none_or] at both
    rw [ok_bind]
    generalize hr : k (code, enterAll pool a) = r'
    cases hr ▸ hk code (enterAll pool a) hcode hp with
    | error hfires => exact .error (both.trans hfires)
    | ok hnone' hsize hp' => exact .gives (both.trans hnone') (enterAll_append pool a b) hsize hp'

/-- Nothing is tested any more, and the code becomes longer. -/
theorem finish {k : List Located × List Value → Except CodeError (List Located × List Value)}
    (h : Heeds pool a n r) (hk : ∀ code pool', byteCount code = n →
      ∃ code', k (code, pool') = .ok (code', pool') ∧ byteCount code' = size) :
    Heeds pool a size (r >>= k) := by
  rw [← List.append_nil a]
  refine h.bind fun code pool' hcode hp => ?_
  obtain ⟨code', hk', hsize⟩ := hk code pool' hcode
  rw [hk']
  exact .gives rfl rfl hsize hp

/-- A distance is tested where it is put into an operand. -/
theorem jump {k : UInt8 → Except CodeError (List Located × List Value)}
    (hk : ∀ d, Heeds pool tests size (k d)) :
    Heeds pool (.jump n :: tests) size (distance n >>= k) := by
  rw [distance]
  split
  · next hn =>
    have passes : firstFiring pool (.jump n :: tests) = firstFiring pool tests :=
      if_neg (Nat.not_lt.mpr hn)
    generalize hr : k n.toUInt8 = r
    rw [ok_bind, hr]
    cases hr ▸ hk n.toUInt8 with
    | error hfires => exact .error (passes.trans hfires)
    | ok hnone hsize hp => exact .ok (passes.trans hnone) hsize hp
  · next hn =>
    have fires : firstFiring pool (.jump n :: tests) = some (.jump n) :=
      if_pos (Nat.lt_of_not_le hn)
    exact .error fires

end Heeds

theorem constantScheme_heeds {pool : List Value} (v : Value) (line : UInt32)
    (hp : pool.length ≤ 256) : Heeds pool [.constant v] 2 (constantScheme v line pool) := by
  rw [constantScheme]
  by_cases hentry : HasEntry pool v
  · obtain ⟨x, hx⟩ := intern_of_hasEntry hentry hp
    rw [hx]
    exact .gives (if_neg fun h => h.2 hentry) (if_pos hentry) rfl hp
  · rw [intern_of_new hentry, Bytecode.poolIndex?]
    by_cases hroom : pool.length < 256
    · rw [if_pos hroom]
      refine .gives (if_neg fun h => Nat.ne_of_lt hroom h.1) (if_neg hentry) rfl ?_
      rw [List.length_append]
      exact hroom
    · rw [if_neg hroom]
      have full : pool.length = 256 := Nat.le_antisymm hp (Nat.le_of_not_lt hroom)
      have fires : firstFiring pool [.constant v] = some (.constant v) := if_pos ⟨full, hentry⟩
      exact .error fires

theorem leafScheme_heeds {pool : List Value} (ty : Ty) (v : Value) (line : UInt32)
    (hp : pool.length ≤ 256) :
    Heeds pool ((leafPoolValues ty v).map .constant) (leafSize ty) (leafScheme ty v line pool) := by
  cases ty with
  | number => exact constantScheme_heeds v line hp
  | string => exact constantScheme_heeds v line hp
  | bool => exact .gives rfl rfl rfl hp
  | unit => exact .gives rfl rfl rfl hp
  | error => exact .gives rfl rfl rfl hp

/-- **The code of a well-typed tree has the size of the tree, unless a test of the tree fires.** -/
theorem Typed.WellTyped.heeds (lines : LineMap) {t : Typed} (ht : t.WellTyped) :
    ∀ {pool : List Value}, pool.length ≤ 256 →
      Heeds pool t.limitTests t.codeSize (t.scheme lines pool) := by
  induction ht with
  | constant =>
    intro pool hp
    exact leafScheme_heeds _ _ _ hp
  | ident =>
    intro pool hp
    exact leafScheme_heeds _ _ _ hp
  | unary _ _ ih =>
    intro pool hp
    refine (ih hp).finish fun code p₁ hcode => ⟨_, rfl, ?_⟩
    rw [byteCount_append, hcode]
    rfl
  | binary _ _ _ ihl ihr =>
    intro pool hp
    refine (ihl hp).bind fun left p₁ hleft hp₁ => (ihr hp₁).finish fun right p₂ hright => ?_
    refine ⟨_, rfl, ?_⟩
    rw [byteCount_append, byteCount_append, hleft, hright, ← Nat.add_assoc]
    rfl
  | @cond s c a b _ _ _ _ _ ihc iha ihb =>
    intro pool hp
    refine (ihc hp).bind fun test p₁ htest hp₁ => (iha hp₁).bind fun yes p₂ hyes hp₂ => ?_
    simp only [hyes]
    refine .jump fun toElse => (ihb hp₂).bind fun no p₃ hno hp₃ => ?_
    simp only [hno]
    refine .jump fun toEnd => .gives rfl rfl ?_ hp₃
    have size := add_byteCount_cond 0 test yes no .jumpIfFalse .jump toElse toEnd
      (lines.lineOf s.start) (lines.lineOf s.start)
    rw [htest, hyes, hno, Nat.zero_add, Nat.zero_add] at size
    exact size

/-! ## 5. Programs -/

theorem Typed.WellTypedStatement.heeds (lines : LineMap) {t : Typed} (ht : t.WellTypedStatement)
    {pool : List Value} (hp : pool.length ≤ 256) :
    Heeds pool t.limitTests t.codeSize (t.scheme lines pool) := by
  cases ht with
  | expression h => exact h.heeds lines hp
  | definition => exact .gives rfl rfl rfl hp

/-- The size of a program: its first statement, the instruction that drops its value, the rest. -/
theorem size_cons_cons (lines : LineMap) (t u : Typed) (ts : List Typed) :
    t.codeSize + (byteCount (discardCode lines t) + (totalSize (u :: ts) + popCount (u :: ts))) =
      totalSize (t :: u :: ts) + popCount (t :: u :: ts) := by
  have total : totalSize (t :: u :: ts) = t.codeSize + totalSize (u :: ts) := rfl
  have pops : popCount (t :: u :: ts) = popCount (u :: ts) + byteCount (discardCode lines t) := by
    rw [popCount, List.dropLast_cons_cons, List.countP_cons, popCount, discardCode]
    cases t.isDefinition with
    | true => rfl
    | false => rfl
  omega

theorem schemeAll_heeds (lines : LineMap) : ∀ {ts : List Typed}, (∀ t ∈ ts, t.WellTypedStatement) →
    ∀ {pool : List Value}, pool.length ≤ 256 →
      Heeds pool (ts.flatMap Typed.limitTests) (totalSize ts + popCount ts)
        (schemeAll lines ts pool)
  | [], _, pool, hp => .gives rfl rfl rfl hp
  | [t], h, pool, hp => by
    rw [List.flatMap_singleton]
    exact (h t (by simp)).heeds lines hp
  | t :: u :: ts, h, pool, hp => by
    have rest : ∀ v ∈ u :: ts, v.WellTypedStatement := fun v hv => h v (List.mem_cons_of_mem t hv)
    rw [List.flatMap_cons (x := t)]
    refine ((h t (by simp)).heeds lines hp).bind fun code p₁ hcode hp₁ => ?_
    refine (schemeAll_heeds lines rest hp₁).finish fun more p₂ hmore => ⟨_, rfl, ?_⟩
    rw [byteCount_append, byteCount_append, hcode, hmore]
    exact size_cons_cons lines t u ts

/-- For well-typed statements the generator does what the scheme says: there is no misuse to
find. -/
theorem ofProgram_cases (lines : LineMap) {ts : List Typed} (h : ∀ t ∈ ts, t.WellTypedStatement) :
    (∃ e, schemeAll lines ts [] = .error e ∧ Bytecode.ofProgram lines ts = .error (.error e)) ∨
      ∃ code pool c, schemeAll lines ts [] = .ok (code, pool) ∧
        Bytecode.ofProgram lines ts = .ok c ∧ c.size = byteCount code := by
  have follows := emitAll_follows lines ts .start
  have settles := emitAll_settles lines ts h .start
  have unpooled : Emitter.start.code.constants.toList = [] := rfl
  rw [unpooled] at follows
  rw [Bytecode.ofProgram]
  generalize schemeAll lines ts [] = r at follows ⊢
  generalize emitAll lines ts .start = o at follows settles ⊢
  cases follows with
  | misuse m => exact settles.elim
  | error e => exact Or.inl ⟨e, rfl, rfl⟩
  | @ok code pool g grows =>
    refine Or.inr ⟨code, pool, g.code, rfl, rfl, ?_⟩
    rw [grows.size]
    exact Nat.zero_add _

namespace Session

/-- **A program fails at the first test that fires**; if none does, its code has the size of the
program. -/
theorem generateProgram_heeds (g : Session) {ts : List Typed} (h : ∀ t ∈ ts, t.WellTypedStatement) :
    (∃ test, firstFiring [] (ts.flatMap Typed.limitTests) = some test ∧
      g.generateProgram ts = .error (.error test.error)) ∨
    ∃ c, firstFiring [] (ts.flatMap Typed.limitTests) = none ∧
      g.generateProgram ts = .ok (programTy ts, c) ∧ c.size = totalSize ts + popCount ts := by
  have room : ([] : List Value).length ≤ 256 := Nat.zero_le 256
  have heeds := schemeAll_heeds g.lines h room
  rw [generateProgram]
  rcases ofProgram_cases g.lines h with ⟨e, hscheme, hprogram⟩ |
    ⟨code, pool, c, hscheme, hprogram, hc⟩
  · rw [hscheme] at heeds
    rw [hprogram]
    cases heeds with
    | @error test hfires => exact Or.inl ⟨test, hfires, rfl⟩
  · rw [hscheme] at heeds
    rw [hprogram]
    cases heeds with
    | ok hnone hsize _ => exact Or.inr ⟨c, hnone, rfl, hc.trans hsize⟩

/-- **The limits of the format are met exactly where they must be.**  For every list of statements
that a check has delivered there is code if and only if no test fires.  Its length is then that of
the statements and of one instruction for each value that is dropped, and its bytes are the numbers
of the stream, so that no operand was cut off.  Otherwise the error is that of the first test that
fires. -/
theorem limits_are_exact {s : Session} (hs : s.Reachable) {ts : List Typed} (hd : s.Delivers ts)
    (g : Session) :
    ((∃ ty c, g.generateProgram ts = .ok (ty, c)) ↔
      firstFiring [] (ts.flatMap Typed.limitTests) = none) ∧
    (∀ ty c, g.generateProgram ts = .ok (ty, c) → c.size = totalSize ts + popCount ts ∧
      c.code.toList.map UInt8.toNat = (streamAll g.lines ts []).map Prod.fst) ∧
    ∀ f, g.generateProgram ts = .error f ↔
      ∃ test, firstFiring [] (ts.flatMap Typed.limitTests) = some test ∧ f = .error test.error := by
  rcases g.generateProgram_heeds (hd.wellTyped hs) with ⟨test, hfires, herror⟩ |
    ⟨c, hnone, hok, hsize⟩
  · rw [hfires, herror]
    refine ⟨⟨fun ⟨ty, c, h⟩ => (by cases h), fun h => (by cases h)⟩, fun ty c h => (by cases h),
      fun f => ?_⟩
    rw [Except.error.injEq]
    constructor
    · rintro rfl
      exact ⟨test, rfl, rfl⟩
    · rintro ⟨test', htest, rfl⟩
      rw [Option.some.inj htest]
  · refine ⟨⟨fun _ => hnone, fun _ => ⟨_, c, hok⟩⟩, fun ty c' h => ?_, fun f => ⟨fun h => ?_, ?_⟩⟩
    · obtain ⟨rfl, rfl⟩ := Prod.mk.inj (Except.ok.inj (hok.symm.trans h))
      exact ⟨hsize, (carries_of_ofProgram (generateProgram_ok h).1).bytes⟩
    · rw [hok] at h
      cases h
    · rintro ⟨test, hfires, -⟩
      rw [hnone] at hfires
      cases hfires

/-- `if true then true else !…!true` with the longest branch that a jump can skip and with one that
is longer by a byte; and a NaN 257 times, which is 257 entries of the pool. -/
theorem limits_are_exact_at_both_limits :
    let yes := Typed.constant ⟨.bool, .zero⟩ (.bool true)
    let choice (n : Nat) :=
      Typed.cond ⟨.bool, .zero⟩ yes yes (n.repeat (.unary ⟨.bool, .zero⟩ .not) yes)
    let nan := Typed.constant ⟨.number, .zero⟩ (.number ⟨0x7ff8000000000000⟩)
    let s := new none .forbid
    (∀ n, s.Delivers [choice n]) ∧ (∀ n, s.Delivers (List.replicate n nan)) ∧
      (∃ ty c, s.generateProgram [choice 254] = .ok (ty, c) ∧ c.size = 261) ∧
      s.generateProgram [choice 255] = .error (.error (.jumpTooFar 256)) ∧
      s.generateProgram (List.replicate 257 nan) = .error (.error .tooManyConstants) := by
  intro yes choice nan s
  have hs : s.Reachable := ⟨none, .forbid, [], rfl⟩
  have nots : ∀ n : Nat, Expr.infer s.bindings
      (n.repeat (.unary .zero .not) (.literal .zero (.bool true))) =
        .ok (n.repeat (.unary ⟨.bool, .zero⟩ .not) yes) := by
    intro n
    induction n with
    | zero => rfl
    | succ n ih => exact infer_unary_ok.mpr ⟨_, ih, by cases n <;> rfl, rfl⟩
  have choices : ∀ n, s.Delivers [choice n] := by
    intro n
    have inferred := (infer_cond_ok (s := .zero)).mpr
      ⟨yes, yes, _, nots 0, nots 0, nots n, rfl, by cases n <;> rfl, rfl⟩
    have checked := check_ok.mpr ⟨_, (check_expression_ok rfl).mpr ⟨inferred, rfl⟩, rfl⟩
    exact Or.inr ⟨_, _, s, checked, rfl⟩
  have nans : ∀ n, s.Delivers (List.replicate n nan) := by
    intro n
    have checked : checkAll s.shadowing s.bindings (List.replicate n
        (.literal .zero (.number ⟨0x7ff8000000000000⟩))) =
          (.ok (List.replicate n nan), s.bindings) := by
      induction n with
      | zero => rfl
      | succ n ih => exact checkAll_cons_ok.mpr ⟨nan, s.bindings, _, rfl, ih, rfl⟩
    exact Or.inl ⟨_, s, by rw [checkProgram, checked]⟩
  obtain ⟨hfits, hsize, -⟩ := limits_are_exact hs (choices 254) s
  obtain ⟨-, -, hfar⟩ := limits_are_exact hs (choices 255) s
  obtain ⟨-, -, hmany⟩ := limits_are_exact hs (nans 257) s
  obtain ⟨ty, c, generated⟩ := hfits.mpr (by decide +kernel)
  refine ⟨choices, nans, ⟨ty, c, generated, (hsize ty c generated).1.trans (by decide +kernel)⟩,
    ?_, ?_⟩
  · exact (hfar _).mpr ⟨.jump 256, by decide +kernel, rfl⟩
  · exact (hmany _).mpr ⟨.constant (.number ⟨0x7ff8000000000000⟩), by decide +kernel, rfl⟩

end Session

end ExprLang
