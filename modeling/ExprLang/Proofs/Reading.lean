/-
# Reading bytes that nobody wrote

Code can be any bytes: a byte may name no operation, and the last operand may be missing.  **Reading
always ends, and it ends at the first place where no instruction begins.**  Up to that place the
code is a list of instructions, the same one that it would be if nothing followed.

Everything is read off `Scanned`, which has one rule for the end of the bytes, one for a malformed
instruction and one for an instruction with more behind it.  That the bytes get fewer is in its last
rule.  A reader that keeps a position in the whole code has to be told so: it moves on by the size
of what it has read, and asks at every step whether it is still inside.  `Reader` is such a reader,
and `Scanned.yields` says that it ends and gives the same items.

In the compiler a `Reader` is an `Instructions` and `Reader.next?` is its `next`.
-/
import ExprLang.Proofs.RoundTrip
import Mathlib.Data.List.Chain

namespace ExprLang

/-! ## 1. What a scan meets -/

/-- Bytes that begin with no instruction, and the reason. -/
inductive Malformed : List UInt8 → DecodeError → Prop where
  | unknown {b : UInt8} {rest : List UInt8} :
      Opcode.ofByte? b = none → Malformed (b :: rest) (.unknownOpcode b)
  | cut {op : OperandOp} : Malformed [op.byte] (.missingOperand op)

/-- `Scanned o bytes items`: the bytes, which begin at the offset `o`, are the items. -/
inductive Scanned : Nat → List UInt8 → List Item → Prop where
  | done {o : Nat} : Scanned o [] []
  | stop {o : Nat} {bytes : List UInt8} {e : DecodeError} :
      Malformed bytes e → Scanned o bytes [⟨o, .error e⟩]
  | next {o : Nat} {i : Instruction} {rest : List UInt8} {items : List Item} :
      Scanned (o + i.size) rest items → Scanned o (i.encode ++ rest) (⟨o, .ok i⟩ :: items)

/-- **Whatever the bytes, they are scanned to an end.** -/
theorem decodeFrom_scanned (o : Nat) (bytes : List UInt8) :
    Scanned o bytes (decodeFrom o bytes) := by
  fun_induction decodeFrom o bytes with
  | case1 => exact .done
  | case2 o b rest hb => exact .stop (.unknown hb)
  | case3 o b rest op hop ih =>
    rw [← Opcode.ofByte?_eq_some_iff.mp hop]
    exact .next (i := .simple op) ih
  | case4 o b op hop =>
    rw [← Opcode.ofByte?_eq_some_iff.mp hop]
    exact .stop .cut
  | case5 o b op hop x rest ih =>
    rw [← Opcode.ofByte?_eq_some_iff.mp hop]
    exact .next (i := .withOperand op x) ih

section Scan

variable {o : Nat} {bytes : List UInt8} {items : List Item} {e : DecodeError}

theorem Malformed.length_pos (h : Malformed bytes e) : 0 < bytes.length := by
  cases h <;> simp

/-- No scan asks for a byte that is not there. -/
theorem Scanned.content_ne (h : Scanned o bytes items) :
    ∀ item ∈ items, ∀ a, item.content ≠ .error (.outOfBounds a) := by
  induction h with
  | done => simp
  | stop hbad => cases hbad <;> simp
  | next _ ih => simpa using ih

/-- **Any bytes are instructions up to their end, or up to a place where none begins.** -/
theorem Scanned.cases (h : Scanned o bytes items) :
    (∃ is, bytes = encodeAll is ∧ items = itemsOf o is) ∨
      ∃ is rest e, Malformed rest e ∧ bytes = encodeAll is ++ rest ∧
        items = itemsOf o is ++ [⟨o + sizeAll is, .error e⟩] := by
  induction h with
  | done => exact Or.inl ⟨[], rfl, rfl⟩
  | stop hbad => exact Or.inr ⟨[], _, _, hbad, rfl, rfl⟩
  | @next o i rest items _ ih =>
    rcases ih with ⟨is, rfl, rfl⟩ | ⟨is, bad, e, hbad, rfl, rfl⟩
    · exact Or.inl ⟨i :: is, rfl, (itemsOf_cons ..).symm⟩
    · refine Or.inr ⟨i :: is, bad, e, hbad, ?_, ?_⟩
      · rw [encodeAll_cons, List.append_assoc]
      · rw [itemsOf_cons, sizeAll, Nat.add_assoc, List.cons_append]

/-! ## 2. Offsets -/

/-- The second item begins where the first one ends, and the first one is an instruction. -/
def Item.Meets (a b : Item) : Prop := ∃ i, a.content = .ok i ∧ b.offset = a.offset + i.size

theorem Scanned.offset_head (h : Scanned o bytes items) :
    ∀ item, items.head? = some item → item.offset = o := by
  cases h <;> simp

/-- **Each item begins where the one before it ends**, so only the last one can be malformed. -/
theorem Scanned.isChain (h : Scanned o bytes items) : items.IsChain Item.Meets := by
  induction h with
  | done => exact .nil
  | stop _ => exact .singleton _
  | @next o i rest items hrest ih =>
    cases items with
    | nil => exact .singleton _
    | cons item items => exact .cons_cons ⟨i, rfl, hrest.offset_head item rfl⟩ ih

end Scan

/-! ## 3. A reader with a position -/

/-- A reader of code: where it is, and whether it has met a malformed instruction. -/
structure Reader where
  code : List UInt8
  offset : Nat
  failed : Bool
  deriving DecidableEq, Repr

namespace Reader

def start (code : List UInt8) : Reader := ⟨code, 0, false⟩

/-- The next item, and the reader after it; there is none at the end of the code or after a
failure. -/
def next? (r : Reader) : Option (Item × Reader) :=
  if r.failed ∨ r.code.length ≤ r.offset then none
  else
    match decodeAt r.code r.offset with
    | .ok i => some (⟨r.offset, .ok i⟩, { r with offset := r.offset + i.size })
    | .error e => some (⟨r.offset, .error e⟩, { r with failed := true })

/-- Inside the code a reader that has not failed has a next item. -/
theorem next?_of_lt {code : List UInt8} {o : Nat} (h : o < code.length) :
    (⟨code, o, false⟩ : Reader).next? =
      match decodeAt code o with
      | .ok i => some (⟨o, .ok i⟩, ⟨code, o + i.size, false⟩)
      | .error e => some (⟨o, .error e⟩, ⟨code, o, true⟩) := by
  rw [next?, if_neg (by simp [h])]

/-- `r.Yields items`: asked again and again, the reader gives the items one by one and then no
more. -/
inductive Yields : Reader → List Item → Prop where
  | done {r : Reader} : r.next? = none → Yields r []
  | item {r r' : Reader} {item : Item} {items : List Item} :
      r.next? = some (item, r') → Yields r' items → Yields r (item :: items)

/-- A reader does not choose. -/
theorem Yields.unique {r : Reader} {items items' : List Item} (h : r.Yields items)
    (h' : r.Yields items') : items = items' := by
  induction h generalizing items' with
  | done hnone =>
    cases h' with
    | done => rfl
    | item hsome => simp [hnone] at hsome
  | item hsome _ ih =>
    cases h' with
    | done hnone => simp [hnone] at hsome
    | item hsome' hrest =>
      obtain ⟨rfl, rfl⟩ := Prod.mk.inj (Option.some.inj (hsome.symm.trans hsome'))
      rw [ih hrest]

end Reader

theorem decodeAt_encode (before : List UInt8) (i : Instruction) (rest : List UInt8) :
    decodeAt (before ++ (i.encode ++ rest)) before.length = .ok i := by
  rw [decodeAt, List.drop_left, decodeFrom_encode_append]

theorem decodeAt_malformed (before : List UInt8) {bytes : List UInt8} {e : DecodeError}
    (h : Malformed bytes e) : decodeAt (before ++ bytes) before.length = .error e := by
  rw [decodeAt, List.drop_left]
  cases h with
  | unknown hb => simp [decodeFrom, hb]
  | @cut op =>
    have hop : Opcode.ofByte? op.byte = some (.withOperand op) :=
      Opcode.ofByte?_byte (.withOperand op)
    simp [decodeFrom, hop]

/-- **A reader with a position ends, and gives what was scanned.**  Its position stays the number of
the bytes behind it, because it moves on by the size of what it has read. -/
theorem Scanned.yields {o : Nat} {bytes : List UInt8} {items : List Item}
    (h : Scanned o bytes items) :
    ∀ before : List UInt8, before.length = o →
      (⟨before ++ bytes, o, false⟩ : Reader).Yields items := by
  induction h with
  | done =>
    rintro before rfl
    exact .done (by simp [Reader.next?])
  | @stop _ bytes e hbad =>
    rintro before rfl
    have inside : before.length < (before ++ bytes).length := by
      have := hbad.length_pos
      rw [List.length_append]
      omega
    have read : (⟨before ++ bytes, before.length, false⟩ : Reader).next? =
        some (⟨before.length, .error e⟩, ⟨before ++ bytes, before.length, true⟩) := by
      rw [Reader.next?_of_lt inside, decodeAt_malformed before hbad]
    exact .item read (.done (by simp [Reader.next?]))
  | @next _ i rest items _ ih =>
    rintro before rfl
    have inside : before.length < (before ++ (i.encode ++ rest)).length := by
      have := i.size_pos
      rw [List.length_append, List.length_append, i.length_encode]
      omega
    have read : (⟨before ++ (i.encode ++ rest), before.length, false⟩ : Reader).next? =
        some (⟨before.length, .ok i⟩,
          ⟨before ++ (i.encode ++ rest), before.length + i.size, false⟩) := by
      rw [Reader.next?_of_lt inside, decodeAt_encode]
    have moved := ih (before ++ i.encode) (by simp)
    rw [List.append_assoc] at moved
    exact .item read moved

/-! ## 4. Bytecode -/

theorem length_encodeAll (is : List Instruction) : (encodeAll is).length = sizeAll is := by
  induction is with
  | nil => rfl
  | cons i is ih => simp [encodeAll_cons, sizeAll, ih]

/-- A byte without an operation is the byte of none. -/
theorem Opcode.byte_ne_of_ofByte? {b : UInt8} (h : ofByte? b = none) (op : Opcode) :
    op.byte ≠ b := by
  rintro rfl
  simp at h

namespace Bytecode

/-- Why no instruction begins at an offset: the byte there is that of no operation, or it is the
last byte and its operation wants an operand. -/
inductive FailsAt (c : Bytecode) (o : Nat) : DecodeError → Prop where
  | unknownOpcode {b : UInt8} : c.code[o]? = some b → (∀ op : Opcode, op.byte ≠ b) →
      FailsAt c o (.unknownOpcode b)
  | missingOperand {op : OperandOp} : c.code[o]? = some op.byte → o + 1 = c.size →
      FailsAt c o (.missingOperand op)

/-- What can be made of code, as items and as a whole: its bytes are those of instructions, to the
end; or they are those of instructions up to an offset, which they would be without the rest of it,
and none begins there. -/
inductive Reads (c : Bytecode) : List Item → Except DecodeError (List Instruction) → Prop where
  | whole {is : List Instruction} : c.code.toList = encodeAll is → sizeAll is = c.size →
      Reads c (itemsOf 0 is) (.ok is)
  | stopped {is : List Instruction} {rest : List UInt8} {o : Nat} {e : DecodeError} :
      c.code.toList = encodeAll is ++ rest → sizeAll is = o →
      { c with code := c.code.extract 0 o }.decode = .ok is → c.FailsAt o e →
      Reads c (itemsOf 0 is ++ [⟨o, .error e⟩]) (.error e)

variable {c : Bytecode} {is : List Instruction} {rest : List UInt8} {e : DecodeError}

theorem failsAt_of_malformed (h : Malformed rest e) (hc : c.code.toList = encodeAll is ++ rest) :
    c.FailsAt (sizeAll is) e := by
  have byte : c.code[sizeAll is]? = rest.head? := by
    rw [← Array.getElem?_toList, hc, ← length_encodeAll, List.getElem?_append_right (Nat.le_refl _),
      Nat.sub_self, List.head?_eq_getElem?]
  have size : c.size = sizeAll is + rest.length := by
    rw [Bytecode.size, ← Array.length_toList, hc, List.length_append, length_encodeAll]
  cases h with
  | unknown hb => exact .unknownOpcode byte (Opcode.byte_ne_of_ofByte? hb)
  | cut => exact .missingOperand byte size.symm

theorem decode_of_error (h : c.items = itemsOf 0 is ++ [⟨sizeAll is, .error e⟩]) :
    c.decode = .error e := by
  rw [decode, h, List.mapM_append, content_itemsOf]
  rfl

/-- The instructions before a malformed one are those of the code that ends there. -/
theorem decode_extract (hc : c.code.toList = encodeAll is ++ rest) :
    { c with code := c.code.extract 0 (sizeAll is) }.decode = .ok is := by
  rw [decode_eq_ok_iff]
  simp [hc, ← length_encodeAll]

theorem reads_items (c : Bytecode) : c.Reads c.items c.decode := by
  rcases (decodeFrom_scanned 0 c.code.toList).cases with ⟨is, hc, hitems⟩ |
    ⟨is, rest, e, hbad, hc, hitems⟩
  · have size : sizeAll is = c.size := by
      rw [← length_encodeAll, ← hc, Array.length_toList, Bytecode.size]
    rw [decode_eq_ok_iff.mpr hc, items, hitems]
    exact .whole hc size
  · rw [Nat.zero_add] at hitems
    rw [decode_of_error hitems, items, hitems]
    exact .stopped hc rfl (decode_extract hc) (failsAt_of_malformed hbad hc)

/-- **Reading ends, and stops at the first malformed instruction**, whatever the bytes.  A reader
gives finitely many items, the first one at the offset 0 and each of the others where the one before
it ends.  All of them are instructions, with the bytes of the code, up to its end; or the last one
is the reason why no instruction begins at its offset, which is also what the code as a whole is
said to be, and the bytes in front of it are those of the instructions before it.  No reader asks
for a byte that is not there. -/
theorem reading_stops_at_first_error (c : Bytecode) :
    (∀ items, (Reader.start c.code.toList).Yields items ↔ items = c.items) ∧
      (∀ item, c.items.head? = some item → item.offset = 0) ∧ c.items.IsChain Item.Meets ∧
      c.Reads c.items c.decode ∧
      ∀ item ∈ c.items, ∀ o, item.content ≠ .error (.outOfBounds o) := by
  have scanned := decodeFrom_scanned 0 c.code.toList
  have ends : (Reader.start c.code.toList).Yields c.items := scanned.yields [] rfl
  refine ⟨fun items => ⟨fun h => h.unique ends, fun h => h ▸ ends⟩, scanned.offset_head,
    scanned.isChain, c.reads_items, scanned.content_ne⟩

/-- `PushConstant 0x41; Jump 0x01; Pop` and a jump without an operand.  The first two operands are
bytes of operations, and the third one is missing. -/
theorem reading_stops_at_first_error_cut :
    let c : Bytecode := ⟨#[0x01, 0x41, 0x40, 0x01, 0x05, 0x41], .replicate 6 1, #[], 0⟩
    let items : List Item := [⟨0, .ok (.withOperand .pushConstant 0x41)⟩,
      ⟨2, .ok (.withOperand .jump 0x01)⟩, ⟨4, .ok (.simple .pop)⟩,
      ⟨5, .error (.missingOperand .jumpIfFalse)⟩]
    (Reader.start c.code.toList).Yields items ∧ items.IsChain Item.Meets ∧
      c.Reads items (.error (.missingOperand .jumpIfFalse)) := by
  intro c items
  have read : items = c.items := rfl
  have decoded : c.decode = .error (.missingOperand .jumpIfFalse) := rfl
  obtain ⟨ends, -, chain, reads, -⟩ := reading_stops_at_first_error c
  exact ⟨(ends items).mpr read, read ▸ chain, decoded ▸ read ▸ reads⟩

end Bytecode

end ExprLang
