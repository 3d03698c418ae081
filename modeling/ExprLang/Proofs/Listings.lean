/-
# A listing, line by line

A listing has one line for every entry of the pool and one for every item of the code.  What such a
line is made of is said here without the printer.  An entry has its index and its constant.  An item
has its offset, its label if a jump goes there, the source line of its first byte, and then the
mnemonic with the operand and what the operand stands for, or the reason why there is no instruction
(`Bytecode.IsLine`).

Two things could go wrong while a listing is written: an item could be behind the end of the line
table, or a jump could go to an address that no machine number stands for.
`Bytecode.checkedListing?` has no text then, and it always has one: an item begins at a byte of the
code, and every byte has a line.

In the compiler it is `write_listing` that could go wrong, at its line table and in `jump_target`.
-/
import ExprLang.Proofs.Container
import ExprLang.Proofs.Labels
import Mathlib.Data.List.Forall2

namespace ExprLang.Bytecode

open Text

variable {c : Bytecode} {item : Item} {edits : List Edit}

/-! ## 1. A listing is always written -/

/-- The listing, written with nothing taken for granted: there is none if a jump goes to an address
above the limit, or if an item has no source line. -/
def checkedListing? (limit : Nat) (c : Bytecode) : Option String := do
  let items := c.items
  let ls := Labels.ofItems items
  guard (∀ item ∈ items, ∀ a ∈ item.target?, a ≤ limit)
  let body ← items.mapM fun item => (c.lineAt? item.offset).map (c.itemLineAt ls item)
  return String.join ((c.poolLines ++ "instructions:" :: body ++ c.endLines ls).map (· ++ "\n"))

/-- A jump goes at most 255 bytes behind the end. -/
theorem target_le (h : item ∈ c.items) {a : Nat} (ha : item.target? = some a) :
    a ≤ c.size + 255 := by
  have within := ((decodeFrom_scanned 0 c.code.toList).offsets.2 item h).2.2
  unfold Item.target? at ha
  split at ha
  · next i hi =>
    have := within i hi
    cases i with
    | simple op => cases ha
    | withOperand op x =>
      have := x.toNat_lt
      simp only [Instruction.target?] at ha
      split at ha
      · cases ha
        simp [size] at *
        omega
      · cases ha
  · cases ha

/-- **There is a source line for every item**, because every byte has one. -/
theorem Intact.exists_line (h : c.Intact edits) (hitem : item ∈ c.items) :
    ∃ line, c.lineAt? item.offset = some line := by
  have inside : item.offset < c.lines.size := h.size ▸ offset_lt_size hitem
  exact ⟨_, Array.getElem?_eq_getElem inside⟩

theorem Intact.itemLine_eq (h : c.Intact edits) (ls : Labels) (hitem : item ∈ c.items) :
    ∃ line, c.lineAt? item.offset = some line ∧ c.itemLine ls item = c.itemLineAt ls item line := by
  obtain ⟨line, hline⟩ := h.exists_line hitem
  exact ⟨line, hline, by rw [itemLine, hline, Option.getD_some]⟩

theorem mapM_eq_some {α β : Type} {f : α → Option β} {g : α → β} {l : List α}
    (h : ∀ x ∈ l, f x = some (g x)) : l.mapM f = some (l.map g) := by
  induction l with
  | nil => rfl
  | cons x l ih =>
    obtain ⟨hx, hl⟩ := List.forall_mem_cons.mp h
    rw [List.mapM_cons, hx, ih hl]
    rfl

/-- **A listing is always written.** -/
theorem Intact.checkedListing_eq (h : c.Intact edits) {limit : Nat}
    (hlimit : c.size + 255 ≤ limit) :
    c.checkedListing? limit = some c.listing := by
  have reach : ∀ item ∈ c.items, ∀ a ∈ item.target?, a ≤ limit :=
    fun item hitem a ha => Nat.le_trans (target_le hitem ha) hlimit
  have body (ls : Labels) :
      (c.items.mapM fun item => (c.lineAt? item.offset).map (c.itemLineAt ls item)) =
        some (c.items.map (c.itemLine ls)) := by
    refine mapM_eq_some fun item hitem => ?_
    obtain ⟨line, hline, text⟩ := h.itemLine_eq ls hitem
    rw [hline, text, Option.map_some]
  unfold checkedListing?
  simp only [guard, if_pos reach, body]
  rfl

/-! ## 2. What a line has on it -/

/-- `c.Says item text`: what is said about an item.  An operation has its mnemonic; behind an
operand stands in parentheses the constant that it names, or the label of the address that the jump
goes to. -/
inductive Says (c : Bytecode) : Item → String → Prop where
  | simple {o : Nat} {op : SimpleOp} : Says c ⟨o, .ok (.simple op)⟩ op.mnemonic
  | constant {o : Nat} {x : UInt8} {v : Value} : c.constants[x.toNat]? = some v →
      Says c ⟨o, .ok (.withOperand .pushConstant x)⟩
        ("PushConstant " ++ toString x.toNat ++ " (" ++ v.text ++ ")")
  | missing {o : Nat} {x : UInt8} : c.constants.size ≤ x.toNat →
      Says c ⟨o, .ok (.withOperand .pushConstant x)⟩
        ("PushConstant " ++ toString x.toNat ++ " (<missing>)")
  | jump {o : Nat} {op : OperandOp} {x : UInt8} : op.isJump = true →
      Says c ⟨o, .ok (.withOperand op x)⟩
        (op.mnemonic ++ " " ++ toString x.toNat ++ " (to " ++
          labelName (rank c.targets (o + 2 + x.toNat)) ++ ")")
  | malformed {o : Nat} {e : DecodeError} : Says c ⟨o, .error e⟩ ("<" ++ e.message ++ ">")

/-- `c.IsLine item l`: the line for an item has its offset, its label if a jump goes there, the
source line of its first byte, and what is said about it. -/
def IsLine (c : Bytecode) (item : Item) (l : String) : Prop :=
  ∃ line text, c.lines[item.offset]? = some line ∧ c.Says item text ∧
    l = "  " ++ zeroPadded 4 item.offset ++ " " ++
      padLeft 4 ((c.label? item.offset).elim "" (· ++ ":")) ++ " " ++
      padLeft 4 (toString line.toNat) ++ "  " ++ text

/-- A jump is written with its operand and the label of the address that it goes to. -/
theorem itemText_jump {o : Nat} {op : OperandOp} {x : UInt8} (hop : op.isJump = true)
    (h : (⟨o, .ok (.withOperand op x)⟩ : Item) ∈ c.items) :
    c.itemText (.ofItems c.items) ⟨o, .ok (.withOperand op x)⟩ =
      op.mnemonic ++ " " ++ toString x.toNat ++ " (to " ++
        labelName (rank c.targets (o + 2 + x.toNat)) ++ ")" := by
  have target : (Instruction.withOperand op x).target? o = some (o + 2 + x.toNat) := if_pos hop
  have named : (Labels.ofItems c.items).reference (o + 2 + x.toNat) =
      labelName (rank c.targets (o + 2 + x.toNat)) :=
    reference_ofItems (mem_targets.mpr ⟨_, h, target⟩)
  have remark : c.remark (.ofItems c.items) o (.withOperand op x) =
      " (to " ++ labelName (rank c.targets (o + 2 + x.toNat)) ++ ")" := by
    rw [← named]
    cases op with
    | pushConstant => cases hop
    | jump => rfl
    | jumpIfFalse => rfl
  simp only [itemText, remark, Instruction.text, Instruction.operand?, Instruction.opcode,
    Opcode.mnemonic, String.append_assoc]

theorem says_itemText (h : item ∈ c.items) : c.Says item (c.itemText (.ofItems c.items) item) := by
  obtain ⟨o, content⟩ := item
  match content with
  | .error e => exact .malformed
  | .ok (.simple op) =>
    have text : c.itemText (.ofItems c.items) ⟨o, .ok (.simple op)⟩ = op.mnemonic :=
      String.append_empty
    rw [text]
    exact .simple
  | .ok (.withOperand .pushConstant x) =>
    have text : c.itemText (.ofItems c.items) ⟨o, .ok (.withOperand .pushConstant x)⟩ =
        "PushConstant " ++ toString x.toNat ++
          (" (" ++ (c.constants[x.toNat]?).elim "<missing>" Value.text ++ ")") := by
      simp [itemText, remark, constant?, Instruction.text, Instruction.operand?,
        Instruction.opcode, Opcode.mnemonic, OperandOp.mnemonic, String.append_assoc]
    rw [text]
    cases hv : c.constants[x.toNat]? with
    | none => exact .missing (Array.getElem?_eq_none_iff.mp hv)
    | some v =>
      rw [Option.elim_some, ← String.append_assoc, ← String.append_assoc]
      exact .constant hv
  | .ok (.withOperand .jump x) =>
    rw [itemText_jump rfl h]
    exact .jump rfl
  | .ok (.withOperand .jumpIfFalse x) =>
    rw [itemText_jump rfl h]
    exact .jump rfl

/-- **The line that is written for an item is the line for it.** -/
theorem Intact.isLine (h : c.Intact edits) (hitem : item ∈ c.items) :
    c.IsLine item (c.itemLine (.ofItems c.items) item) := by
  obtain ⟨line, hline, text⟩ := h.itemLine_eq (.ofItems c.items) hitem
  refine ⟨line, _, hline, says_itemText hitem, ?_⟩
  rw [text, itemLineAt, column_ofItems]

/-! ## 3. The parts of a listing -/

/-- Some jump goes to the end of the code. -/
def JumpsToEnd (c : Bytecode) : Prop := ∃ item ∈ c.items, item.target? = some c.size

instance (c : Bytecode) : Decidable c.JumpsToEnd := List.decidableBEx _ c.items

/-- `c.LaysOut pool body tail`: the lines for the pool, with one for each entry between the
brackets; the lines for the code, one for each item; and the line behind the code, which is there if
a jump goes to the end, and has the offset of the end and its label. -/
structure LaysOut (c : Bytecode) (pool body tail : List String) : Prop where
  empty : c.constants.size = 0 → pool = ["constants: []"]
  entries : c.constants.size ≠ 0 → ∃ entries, pool = "constants: [" :: entries ++ ["]"] ∧
    entries.length = c.constants.size ∧
    ∀ (i : Nat) v, c.constants[i]? = some v →
      entries[i]? = some ("  [" ++ toString i ++ "] = " ++ v.text)
  body : List.Forall₂ c.IsLine c.items body
  tail : tail = if c.JumpsToEnd then
    ["  " ++ zeroPadded 4 c.size ++ " " ++ padLeft 4 (labelName (rank c.targets c.size) ++ ":")]
    else []

theorem jumpsToEnd_iff : c.JumpsToEnd ↔ c.size ∈ c.targets := mem_targets.symm

/-- The line behind the code is there for its label. -/
theorem endLines_eq (c : Bytecode) :
    c.endLines (.ofItems c.items) = if c.JumpsToEnd then
      ["  " ++ zeroPadded 4 c.size ++ " " ++ padLeft 4 (labelName (rank c.targets c.size) ++ ":")]
      else [] := by
  rw [endLines, column_ofItems, at?_ofItems, label?]
  by_cases h : c.size ∈ c.targets
  · simp [h, jumpsToEnd_iff]
  · simp [h, jumpsToEnd_iff]

theorem Intact.laysOut (h : c.Intact edits) :
    c.LaysOut c.poolLines (c.items.map (c.itemLine (.ofItems c.items)))
      (c.endLines (.ofItems c.items)) where
  empty hsize := by
    rw [poolLines, Array.isEmpty_iff_size_eq_zero.mpr hsize, if_pos rfl]
  entries hsize := by
    have filled : ¬ c.constants.isEmpty = true := by rwa [Array.isEmpty_iff_size_eq_zero]
    refine ⟨c.constants.toList.mapIdx fun i v => "  [" ++ toString i ++ "] = " ++ v.text, ?_, ?_,
      fun i v hv => ?_⟩
    · rw [poolLines, if_neg filled]
    · rw [List.length_mapIdx, Array.length_toList]
    · rw [List.getElem?_mapIdx, Array.getElem?_toList, hv, Option.map_some]
  body := by
    rw [List.forall₂_map_right_iff, List.forall₂_same]
    exact fun item hitem => h.isLine hitem
  tail := c.endLines_eq

theorem length_poolLines (c : Bytecode) :
    c.poolLines.length = if c.constants.size = 0 then 1 else c.constants.size + 2 := by
  rw [poolLines, apply_ite List.length]
  refine if_congr Array.isEmpty_iff_size_eq_zero rfl ?_
  simp

theorem length_listingLines (c : Bytecode) :
    c.listingLines.length = (if c.constants.size = 0 then 1 else c.constants.size + 2) + 1 +
      c.items.length + if c.JumpsToEnd then 1 else 0 := by
  have tail : (c.endLines (.ofItems c.items)).length = if c.JumpsToEnd then 1 else 0 := by
    rw [endLines_eq, apply_ite List.length]
    rfl
  rw [listingLines, List.length_append, List.length_append, List.length_cons, List.length_map,
    length_poolLines, tail]
  omega

/-- **A listing has one line for each entry of the pool and one for each item of the code**,
whatever was done to the container and whatever its constants are.  It is always written, on every
machine that has numbers for the addresses that a jump in the code can go to, and it ends in a
newline.  Cut at its newlines it is the lines for the pool, a heading, the lines for the code and
the one behind it; and the dump is two lines of its own, these lines, indented, and a brace. -/
theorem listing_has_fixed_lines (h : empty.editAll? edits = some c) :
    let lines := splitLines c.listing
    (∀ limit, c.size + 255 ≤ limit → c.checkedListing? limit = some c.listing) ∧
      c.listing.toList.getLast? = some '\n' ∧ c.listing.toList.count '\n' = lines.length ∧
      lines.length = (if c.constants.size = 0 then 1 else c.constants.size + 2) + 1 +
        c.items.length + (if c.JumpsToEnd then 1 else 0) ∧
      (∃ pool body tail, lines = pool ++ ["instructions:"] ++ body ++ tail ∧
        c.LaysOut pool body tail) ∧
      c.dump = "Bytecode \x7b\n  max_stack_size: " ++ toString c.maxStack ++ "\n" ++
        String.join (lines.map fun l => "  " ++ l ++ "\n") ++ "\x7d" := by
  intro lines
  have intact := intact_of_editAll h
  have cut : lines = c.listingLines := c.splitLines_listing
  rw [cut]
  refine ⟨fun limit => intact.checkedListing_eq, getLast?_join ?_,
    count_newline_join c.unbroken_listingLines, c.length_listingLines,
    ⟨_, _, _, ?_, intact.laysOut⟩, ?_⟩
  · simp [listingLines]
  · simp [listingLines]
  · rfl

/-- A string of a newline, a quote and a carriage return; a constant that is not there, a jump to
the end of the code, and a jump without an operand. -/
theorem listing_has_fixed_lines_breaks :
    let edits : List Edit := [.addConstant (.str "\n\"\r"), .writeOp (.withOperand .pushConstant) 1,
      .write 7 1, .writeOp (.withOperand .jump) 2, .write 1 2,
      .writeOp (.withOperand .jumpIfFalse) 3]
    ∃ c, empty.editAll? edits = some c ∧ c.JumpsToEnd ∧ c.items.length = 3 ∧
      c.checkedListing? (UInt64.size - 1) = some c.listing ∧ c.listing.toList.count '\n' = 8 := by
  intro edits
  let c : Bytecode := ⟨#[0x01, 7, 0x40, 1, 0x41], #[1, 1, 2, 2, 3], #[.str "\n\"\r"], 0⟩
  have built : empty.editAll? edits = some c := rfl
  have jumps : c.JumpsToEnd := by decide
  have items : c.items.length = 3 := rfl
  have pool : ¬ c.constants.size = 0 := by decide
  obtain ⟨written, -, newlines, count, -⟩ := listing_has_fixed_lines built
  rw [if_pos jumps, if_neg pool, items] at count
  exact ⟨c, built, jumps, items, written _ (by decide), newlines.trans count⟩

end ExprLang.Bytecode
