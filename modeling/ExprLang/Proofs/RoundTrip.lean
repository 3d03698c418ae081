/-
# Instructions and their bytes

Nothing in a byte stream marks where an instruction begins: an operand can have the value of any
operation, and only the instructions before it say that it is an operand.  Still **a list of
instructions and its bytes determine each other**.

* Reading what was written gives the instructions back, each at the sum of the sizes of those before
  it (`decodeFrom_encodeAll`).  The reader steps over exactly the bytes that the writer wrote.
* What can be read to its end was written so (`encodeAll_of_decodeFrom`).  An operation is known by
  its byte and has no other, so there is no second way to write it.
-/
import ExprLang.Proofs.Runs

namespace ExprLang

/-! ## 1. Writing -/

/-- The bytes of instructions, one after another. -/
def encodeAll (is : List Instruction) : List UInt8 := is.flatMap Instruction.encode

theorem encodeAll_cons (i : Instruction) (is : List Instruction) :
    encodeAll (i :: is) = i.encode ++ encodeAll is := rfl

/-- The bytes of an instruction are that of its operation and its operand, if it has one. -/
theorem Instruction.encode_eq (i : Instruction) :
    i.encode = i.opcode.byte :: i.operand?.toList := by
  cases i with
  | simple op => rfl
  | withOperand op x => rfl

/-! ## 2. Reading what was written -/

/-- The sizes of instructions, added up. -/
def sizeAll : List Instruction → Nat
  | [] => 0
  | i :: is => i.size + sizeAll is

/-- The instructions with their offsets, if the first one is at `offset`: each stands behind all
that come before it. -/
def itemsOf (offset : Nat) (is : List Instruction) : List Item :=
  is.mapIdx fun k i => ⟨offset + sizeAll (is.take k), .ok i⟩

theorem itemsOf_cons (offset : Nat) (i : Instruction) (is : List Instruction) :
    itemsOf offset (i :: is) = ⟨offset, .ok i⟩ :: itemsOf (offset + i.size) is := by
  rw [itemsOf, itemsOf, List.mapIdx_cons]
  simp only [List.take_zero, List.take_succ_cons, sizeAll, Nat.add_zero, Nat.add_assoc]

/-- **Reading undoes writing**, instruction by instruction. -/
theorem decodeFrom_encodeAll (offset : Nat) (is : List Instruction) :
    decodeFrom offset (encodeAll is) = itemsOf offset is := by
  induction is generalizing offset with
  | nil => rfl
  | cons i is ih => rw [encodeAll_cons, decodeFrom_encode_append, ih, itemsOf_cons]

theorem content_itemsOf (offset : Nat) (is : List Instruction) :
    (itemsOf offset is).mapM Item.content = .ok is := by
  induction is generalizing offset with
  | nil => rfl
  | cons i is ih =>
    rw [itemsOf_cons, List.mapM_cons, ih]
    rfl

/-- **Different instructions have different bytes.** -/
theorem encodeAll_injective {is js : List Instruction} (h : encodeAll is = encodeAll js) :
    is = js := by
  have written : (itemsOf 0 is).mapM Item.content = .ok js := by
    rw [← decodeFrom_encodeAll, h, decodeFrom_encodeAll, content_itemsOf]
  rw [content_itemsOf] at written
  exact Except.ok.inj written

/-! ## 3. Writing what was read -/

/-- **What can be read to its end is what its instructions are written as.** -/
theorem encodeAll_of_decodeFrom {offset : Nat} {bytes : List UInt8} {is : List Instruction}
    (h : (decodeFrom offset bytes).mapM Item.content = .ok is) : encodeAll is = bytes := by
  fun_induction decodeFrom offset bytes generalizing is with
  | case1 =>
    cases h
    rfl
  | case2 => cases h
  | case3 offset b rest op hop ih =>
    simp only [List.mapM_cons, ok_bind, bind_eq_ok, pure_eq, Except.ok.injEq] at h
    obtain ⟨is', hrest, rfl⟩ := h
    have hb : op.byte = b := Opcode.ofByte?_eq_some_iff.mp hop
    rw [encodeAll_cons, ih hrest, Instruction.encode, hb, List.singleton_append]
  | case4 => cases h
  | case5 offset b op hop x rest ih =>
    simp only [List.mapM_cons, ok_bind, bind_eq_ok, pure_eq, Except.ok.injEq] at h
    obtain ⟨is', hrest, rfl⟩ := h
    have hb : op.byte = b := Opcode.ofByte?_eq_some_iff.mp hop
    rw [encodeAll_cons, ih hrest, Instruction.encode, hb, List.cons_append, List.singleton_append]

/-! ## 4. Bytecode -/

namespace Bytecode

variable {c : Bytecode} {is : List Instruction}

theorem items_of_encodeAll (h : c.code.toList = encodeAll is) : c.items = itemsOf 0 is := by
  rw [items, h, decodeFrom_encodeAll]

/-- **Code reads as a list of instructions exactly if it is their bytes.** -/
theorem decode_eq_ok_iff : c.decode = .ok is ↔ c.code.toList = encodeAll is := by
  constructor
  · intro h
    exact (encodeAll_of_decodeFrom h).symm
  · intro h
    rw [decode, items_of_encodeAll h]
    exact content_itemsOf 0 is

/-- **Reading and writing code are inverse to each other.**  Written instructions are read back,
each with its offset; code that can be read is what its instructions are written as; so code can be
read exactly if it was written, and in one way only. -/
theorem decode_inverts_encode (c : Bytecode) (is : List Instruction) :
    (∀ i ∈ is, i.encode = i.opcode.byte :: i.operand?.toList ∧ i.encode.length = i.size) ∧
      (c.code.toList = encodeAll is → c.decode = .ok is ∧ c.items = itemsOf 0 is) ∧
      (c.decode = .ok is → encodeAll is = c.code.toList) ∧
      ((∃ js, c.decode = .ok js) ↔ ∃ js, encodeAll js = c.code.toList) ∧
      ∀ js, encodeAll is = encodeAll js → is = js := by
  refine ⟨fun i _ => ⟨i.encode_eq, i.length_encode⟩, ?_, ?_, ?_, fun js => encodeAll_injective⟩
  · intro h
    exact ⟨decode_eq_ok_iff.mpr h, items_of_encodeAll h⟩
  · intro h
    exact (decode_eq_ok_iff.mp h).symm
  · exact exists_congr fun js => decode_eq_ok_iff.trans eq_comm

/-- `PushConstant 0x40; Jump 0x01; Pop`: both operands are bytes of operations. -/
theorem decode_inverts_encode_ambiguous :
    let c : Bytecode := ⟨#[0x01, 0x40, 0x40, 0x01, 0x05], #[1, 1, 1, 1, 1], #[], 0⟩
    let is : List Instruction :=
      [.withOperand .pushConstant 0x40, .withOperand .jump 0x01, .simple .pop]
    c.code.toList = encodeAll is ∧ c.decode = .ok is ∧
      c.items = [⟨0, .ok (.withOperand .pushConstant 0x40)⟩, ⟨2, .ok (.withOperand .jump 0x01)⟩,
        ⟨4, .ok (.simple .pop)⟩] := by
  intro c is
  have written : c.code.toList = encodeAll is := by decide
  obtain ⟨decoded, items⟩ := (decode_inverts_encode c is).2.1 written
  exact ⟨written, decoded, items⟩

end Bytecode

end ExprLang
