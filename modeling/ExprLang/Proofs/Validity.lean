/-
# Code that a machine can load

Before a machine runs code it wants to know that the code can be read to its end, that every
constant it names is there, and that no jump goes into the middle of an instruction.
`Bytecode.Valid` says so.

**Whatever the generator accepts, its code is valid.**  Nothing is asked of the trees: a leaf may
have a value of another type, a branch may be a definition and have no code at all.  Types decide
what the code computes, but its shape comes from the scheme alone, and there a jump skips whole
pieces of code: the first jump of an `if` skips the code of a branch and the second jump, the second
one skips the code of the other branch (`Typed.scheme_valid`).
-/
import ExprLang.Proofs.RoundTrip
import ExprLang.Proofs.Scheme

namespace ExprLang

/-! ## 1. Valid bytecode -/

/-- An instruction of the items begins at the offset `a`, or they end there. -/
def LandsIn (items : List Item) (size a : Nat) : Prop :=
  a = size ∨ ∃ i, (⟨a, .ok i⟩ : Item) ∈ items

/-- What code needs of an item: a constant that it pushes is in the pool, and a jump goes forward,
to an instruction or to the end. -/
structure Item.Fits (pool : List Value) (items : List Item) (size : Nat) (item : Item) : Prop where
  constants : ∀ x, item.content = .ok (.withOperand .pushConstant x) → x.toNat < pool.length
  jumps : ∀ i a, item.content = .ok i → i.target? item.offset = some a →
    item.offset + i.size ≤ a ∧ LandsIn items size a

/-- The code can be read to its end and has a line for every byte, the pool is no larger than an
operand can name, and every item fits. -/
structure Bytecode.Valid (c : Bytecode) : Prop where
  decodes : ∃ is, c.decode = .ok is ∧ encodeAll is = c.code.toList
  lines : c.lines.size = c.code.size
  pool : c.constants.size ≤ 256
  items : ∀ item ∈ c.items, item.Fits c.constants.toList c.items c.size

/-! ## 2. Valid pieces of code -/

/-- Skipping `n` bytes of the code skips whole instructions. -/
def Skips (n : Nat) (code : List Located) : Prop :=
  ∃ skipped, skipped <+: code ∧ byteCount skipped = n

/-- `ValidCode pool code`: the constants that the code uses are in the pool, and its jumps skip
whole instructions of the code behind them.  It does not matter where the code stands. -/
inductive ValidCode (pool : List Value) : List Located → Prop where
  | nil : ValidCode pool []
  | simple {op : SimpleOp} {line : UInt32} {code : List Located} :
      ValidCode pool code → ValidCode pool (⟨.simple op, line⟩ :: code)
  | constant {x : UInt8} {line : UInt32} {code : List Located} : x.toNat < pool.length →
      ValidCode pool code → ValidCode pool (⟨.withOperand .pushConstant x, line⟩ :: code)
  | jump {op : OperandOp} {x : UInt8} {line : UInt32} {code : List Located} : op.isJump = true →
      Skips x.toNat code → ValidCode pool code → ValidCode pool (⟨.withOperand op x, line⟩ :: code)

section Pieces

variable {pool pool' : List Value} {a b code : List Located}

theorem Skips.append {n : Nat} (h : Skips n a) (b : List Located) : Skips n (a ++ b) := by
  obtain ⟨skipped, hp, hn⟩ := h
  exact ⟨skipped, hp.trans (List.prefix_append a b), hn⟩

/-- **Valid pieces make valid code**: more code behind a piece does not move where its jumps
land. -/
theorem ValidCode.append (ha : ValidCode pool a) (hb : ValidCode pool b) :
    ValidCode pool (a ++ b) := by
  induction ha with
  | nil => exact hb
  | simple _ ih => exact .simple ih
  | constant hx _ ih => exact .constant hx ih
  | jump hop hx _ ih => exact .jump hop (hx.append b) ih

/-- More constants do no harm. -/
theorem ValidCode.mono (h : ValidCode pool code) (hp : pool <+: pool') : ValidCode pool' code := by
  induction h with
  | nil => exact .nil
  | simple _ ih => exact .simple ih
  | constant hx _ ih => exact .constant (Nat.lt_of_lt_of_le hx hp.length_le) ih
  | jump hop hx _ ih => exact .jump hop hx ih

/-! ## 3. Offsets -/

/-- Where whole instructions are skipped, an instruction begins or the code ends. -/
theorem Skips.landsIn {n : Nat} (h : Skips n code) (o : Nat) :
    LandsIn (decodeFrom o (bytesOf code)) (o + byteCount code) (o + n) := by
  obtain ⟨skipped, ⟨rest, rfl⟩, rfl⟩ := h
  cases rest with
  | nil => exact Or.inl (by rw [List.append_nil])
  | cons l rest =>
    refine Or.inr ⟨l.instruction, ?_⟩
    rw [decodeFrom_bytesOf_append, decodeFrom_bytesOf_cons]
    exact List.mem_append_right _ List.mem_cons_self

theorem LandsIn.cons {items : List Item} {size a : Nat} (h : LandsIn items size a) (item : Item) :
    LandsIn (item :: items) size a := by
  rcases h with h | ⟨i, hi⟩
  · exact Or.inl h
  · exact Or.inr ⟨i, List.mem_cons_of_mem item hi⟩

theorem Item.Fits.cons {items : List Item} {size : Nat} {item : Item}
    (h : item.Fits pool items size) (first : Item) : item.Fits pool (first :: items) size := by
  refine ⟨h.constants, fun i a hi ha => ?_⟩
  obtain ⟨forward, lands⟩ := h.jumps i a hi ha
  exact ⟨forward, lands.cons first⟩

theorem fits_simple (o : Nat) (op : SimpleOp) (items : List Item) (size : Nat) :
    Item.Fits pool items size ⟨o, .ok (.simple op)⟩ where
  constants x hx := by cases hx
  jumps i a hi ha := by
    cases hi
    cases ha

theorem fits_constant {x : UInt8} (hx : x.toNat < pool.length) (o : Nat) (items : List Item)
    (size : Nat) : Item.Fits pool items size ⟨o, .ok (.withOperand .pushConstant x)⟩ where
  constants y hy := by
    cases hy
    exact hx
  jumps i a hi ha := by
    cases hi
    cases ha

theorem target_jump {op : OperandOp} (hop : op.isJump = true) (x : UInt8) (o : Nat) :
    (Instruction.withOperand op x).target? o = some (o + 2 + x.toNat) := by
  rw [Instruction.target?, if_pos hop, size_withOperand]

theorem fits_jump {op : OperandOp} (hop : op.isJump = true) {x : UInt8} {o size : Nat}
    {items : List Item} (h : LandsIn items size (o + 2 + x.toNat)) :
    Item.Fits pool items size ⟨o, .ok (.withOperand op x)⟩ where
  constants y hy := by
    cases hy
    cases hop
  jumps i a hi ha := by
    cases hi
    rw [target_jump hop, Option.some.injEq] at ha
    subst ha
    exact ⟨Nat.le_add_right (o + 2) x.toNat, h⟩

/-- Every item of the code fits, if the code begins at the offset `o`. -/
def FitsFrom (pool : List Value) (code : List Located) (o : Nat) : Prop :=
  ∀ item ∈ decodeFrom o (bytesOf code),
    item.Fits pool (decodeFrom o (bytesOf code)) (o + byteCount code)

theorem FitsFrom.cons {l : Located} {o : Nat} (rest : FitsFrom pool code (o + l.instruction.size))
    (first : Item.Fits pool
      (⟨o, .ok l.instruction⟩ :: decodeFrom (o + l.instruction.size) (bytesOf code))
      (o + l.instruction.size + byteCount code) ⟨o, .ok l.instruction⟩) :
    FitsFrom pool (l :: code) o := by
  intro item hitem
  rw [decodeFrom_bytesOf_cons] at hitem
  rw [decodeFrom_bytesOf_cons, byteCount_cons, ← Nat.add_assoc]
  rcases List.mem_cons.mp hitem with rfl | hitem
  · exact first
  · exact (rest item hitem).cons _

/-- **Every item of valid code fits**, wherever the code stands. -/
theorem ValidCode.fitsFrom (h : ValidCode pool code) : ∀ o, FitsFrom pool code o := by
  induction h with
  | nil =>
    intro o item hitem
    exact absurd hitem List.not_mem_nil
  | simple _ ih =>
    intro o
    exact .cons (ih _) (fits_simple o ..)
  | constant hx _ ih =>
    intro o
    exact .cons (ih _) (fits_constant hx o ..)
  | jump hop hskips _ ih =>
    intro o
    exact .cons (ih _) (fits_jump hop ((hskips.landsIn (o + 2)).cons _))

end Pieces

/-! ## 4. The scheme gives valid code -/

section Scheme

variable {lines : LineMap} {pool pool' : List Value} {code : List Located}

/-- A pool that takes one more constant had room for it. -/
theorem length_of_intern {v : Value} {x : UInt8} (h : intern pool v = some (x, pool'))
    (hp : pool.length ≤ 256) : pool'.length ≤ 256 := by
  rw [intern] at h
  split at h
  · obtain ⟨y, -, heq⟩ := Option.map_eq_some_iff.mp h
    rw [← (Prod.mk.inj heq).2]
    exact hp
  · obtain ⟨y, hy, heq⟩ := Option.map_eq_some_iff.mp h
    have room : pool.length < 256 := by
      rw [← poolIndex_some hy]
      exact y.toNat_lt
    rw [← (Prod.mk.inj heq).2, List.length_append, List.length_singleton]
    omega

theorem leafScheme_valid {ty : Ty} {v : Value} {line : UInt32}
    (h : leafScheme ty v line pool = .ok (code, pool')) : ValidCode pool' code := by
  rcases leafScheme_cases h with ⟨x, hx, rfl⟩ | ⟨-, rfl | ⟨op, rfl⟩⟩
  · obtain ⟨hlt, -⟩ := List.getElem?_eq_some_iff.mp (intern_some hx).2
    exact .constant hlt .nil
  · exact .nil
  · exact .simple .nil

/-- **The code of a tree is valid**, whatever the tree. -/
theorem Typed.scheme_valid {t : Typed} : ∀ {pool pool' : List Value} {code : List Located},
    t.scheme lines pool = .ok (code, pool') → ValidCode pool' code := by
  induction t with
  | constant i v =>
    intro pool pool' code h
    exact leafScheme_valid h
  | ident i x v =>
    intro pool pool' code h
    cases v with
    | some v => exact leafScheme_valid h
    | none =>
      obtain ⟨rfl, -⟩ := Prod.mk.inj (Except.ok.inj h)
      exact .nil
  | unary i op e ih =>
    intro pool pool' code h
    obtain ⟨operand, he, rfl⟩ := scheme_unary_ok h
    exact (ih he).append (.simple .nil)
  | binary i op l r ihl ihr =>
    intro pool pool' code h
    obtain ⟨left, p₁, right, hl, hr, rfl⟩ := scheme_binary_ok h
    exact ((ihl hl).mono (scheme_grows hr)).append ((ihr hr).append (.simple .nil))
  | cond i c a b ihc iha ihb =>
    intro pool pool' code h
    obtain ⟨test, p₁, yes, p₂, no, toElse, toEnd, hc, ha, hb, hElse, hEnd, rfl⟩ := scheme_cond_ok h
    have grows_b := scheme_grows hb
    have grows_a := (scheme_grows ha).trans grows_b
    -- the second jump skips all the code behind it, the first one all up to and with the second
    have toEnd_skips : Skips toEnd.toNat no := ⟨no, List.prefix_refl no, hEnd.symm⟩
    have toElse_skips : Skips toElse.toNat (yes ++
        ⟨.withOperand .jump toEnd, lines.lineOf i.span.start⟩ :: no) := by
      refine ⟨yes ++ [⟨.withOperand .jump toEnd, lines.lineOf i.span.start⟩], ⟨no, ?_⟩, ?_⟩
      · rw [List.append_assoc, List.singleton_append]
      · rw [hElse, byteCount_append, byteCount_cons, size_withOperand, byteCount_nil]
    exact ((ihc hc).mono grows_a).append (.jump rfl toElse_skips
      (((iha ha).mono grows_b).append (.jump rfl toEnd_skips (ihb hb))))
  | lambda i =>
    intro pool pool' code h
    cases h
  | define i x e _ =>
    intro pool pool' code h
    rw [scheme_define_ok h]
    exact .nil

theorem discardCode_valid (pool : List Value) (lines : LineMap) (t : Typed) :
    ValidCode pool (discardCode lines t) := by
  rw [discardCode]
  split
  · exact .nil
  · exact .simple .nil

theorem schemeAll_valid : ∀ {ts : List Typed} {pool pool' : List Value} {code : List Located},
    schemeAll lines ts pool = .ok (code, pool') → ValidCode pool' code
  | [], pool, pool', code, h => by
    rw [schemeAll_nil_ok h]
    exact .nil
  | [t], pool, pool', code, h => Typed.scheme_valid h
  | t :: u :: ts, pool, pool', code, h => by
    obtain ⟨first, p₁, rest, hfirst, hrest, rfl⟩ := schemeAll_cons_ok h
    exact ((Typed.scheme_valid hfirst).mono (schemeAll_grows hrest)).append
      ((discardCode_valid pool' lines t).append (schemeAll_valid hrest))

end Scheme

/-! ## 5. Generated code -/

theorem bytesOf_eq_encodeAll (code : List Located) :
    bytesOf code = encodeAll (code.map Located.instruction) := by
  rw [bytesOf, encodeAll, List.flatMap_map]

theorem length_linesOf (code : List Located) : (linesOf code).length = byteCount code := by
  rw [linesOf, byteCount, bytesOf, List.length_flatMap, List.length_flatMap]
  simp only [List.length_replicate, Instruction.length_encode]

theorem valid_of_ofProgram {lines : LineMap} {ts : List Typed} {c : Bytecode}
    (h : Bytecode.ofProgram lines ts = .ok c) : c.Valid := by
  obtain ⟨code, hscheme, hbytes, hlines⟩ := scheme_of_ofProgram h
  have valid := schemeAll_valid hscheme
  have written := hbytes.trans (bytesOf_eq_encodeAll code)
  have size := Bytecode.size_eq_byteCount hbytes
  have items : c.items = decodeFrom 0 (bytesOf code) := by rw [Bytecode.items, hbytes]
  refine ⟨⟨_, Bytecode.decode_eq_ok_iff.mpr written, written.symm⟩, ?_, ?_, ?_⟩
  · rw [← Array.length_toList, hlines, length_linesOf]
    exact size.symm
  · exact schemeAll_keeps (P := fun p => p.length ≤ 256) length_of_intern hscheme (Nat.zero_le 256)
  · rw [items, size, ← Nat.zero_add (byteCount code)]
    exact valid.fitsFrom 0

/-- **Generated code is valid**, for every list of trees and every single tree that there is code
for, right or wrong, and with whatever lines. -/
theorem Session.generated_code_is_valid (g : Session) :
    (∀ ts ty c, g.generateProgram ts = .ok (ty, c) → c.Valid) ∧
      ∀ t ty c, g.generate t = .ok (ty, c) → c.Valid := by
  have program : ∀ ts ty c, g.generateProgram ts = .ok (ty, c) → c.Valid :=
    fun ts ty c h => valid_of_ofProgram (generateProgram_ok h).1
  refine ⟨program, fun t ty c h => ?_⟩
  rw [generate_eq_generateProgram] at h
  exact program [t] ty c h

/-- A condition that is a string, a branch that defines a name and so has no code, a branch with a
number as its unit value, and all of it followed by another statement. -/
theorem Session.generated_code_is_valid_ill_typed :
    let unit : NodeInfo := ⟨.unit, .zero⟩
    let t := Typed.cond unit (.constant ⟨.bool, .zero⟩ (.str "no"))
      (.define unit "x" (.lambda unit)) (.constant unit (.number ⟨0⟩))
    let u := Typed.constant ⟨.string, .zero⟩ (.bool true)
    let g := new none .forbid
    ∃ c, g.generateProgram [t, u] = .ok (.string, c) ∧ c.Valid := by
  intro unit t u g
  obtain ⟨c, generated⟩ : ∃ c, g.generateProgram [t, u] = .ok (.string, c) := ⟨_, by cbv⟩
  exact ⟨c, generated, (generated_code_is_valid g).1 _ _ _ generated⟩

end ExprLang
