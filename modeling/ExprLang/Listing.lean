/-
# Listings

Bytecode as text: the pool, one constant a line, and the code, one instruction a line with its
offset, its label and its source line.  The addresses that jumps go to have labels `L0`, `L1`, … in
the order of the addresses; the address behind the last byte has a line of its own if a jump goes
there.

In the compiler `listingLines` is `write_listing` and `listing` is `disassemble`.
-/
import ExprLang.Bytecode
import ExprLang.Text.Pad

namespace ExprLang

/-! ## 1. Labels -/

/-- The addresses that have labels, in ascending order, so that the place of an address in the list
is the number of its label. -/
structure Labels where
  addresses : List Nat
  deriving DecidableEq, Repr

/-- Adds an address to a strictly ascending list. -/
def insertAddress (a : Nat) : List Nat → List Nat
  | [] => [a]
  | b :: rest =>
    if a < b then a :: b :: rest else if a = b then b :: rest else b :: insertAddress a rest

/-- The address that an item jumps to. -/
def Item.target? (item : Item) : Option Nat :=
  match item.content with
  | .ok i => i.target? item.offset
  | .error _ => none

namespace Labels

/-- The labels that the jumps among the items need. -/
def ofItems (items : List Item) : Labels :=
  ⟨(items.filterMap Item.target?).foldr insertAddress []⟩

/-- The number of the label at an address. -/
def at? (ls : Labels) (address : Nat) : Option Nat := ls.addresses.idxOf? address

/-- The label of an address in its column, which is empty when there is none. -/
def column (ls : Labels) (address : Nat) : String :=
  Text.padLeft 4 ((ls.at? address).elim "" fun k => "L" ++ toString k ++ ":")

/-- How a jump names the address it goes to. -/
def reference (ls : Labels) (address : Nat) : String :=
  match ls.at? address with
  | some k => "L" ++ toString k
  | none => "@" ++ toString address

end Labels

/-! Every target has a label, nothing else has, and labels ascend with their addresses. -/

theorem mem_insertAddress (a b : Nat) (l : List Nat) :
    b ∈ insertAddress a l ↔ b = a ∨ b ∈ l := by
  induction l with
  | nil => simp [insertAddress]
  | cons c rest ih => grind [insertAddress]

theorem pairwise_insertAddress (a : Nat) {l : List Nat} (h : l.Pairwise (· < ·)) :
    (insertAddress a l).Pairwise (· < ·) := by
  induction l with
  | nil => simp [insertAddress]
  | cons c rest ih =>
    obtain ⟨hc, hrest⟩ := List.pairwise_cons.mp h
    unfold insertAddress
    split
    · next hac =>
      refine List.pairwise_cons.mpr ⟨fun b hb => ?_, h⟩
      rcases List.mem_cons.mp hb with rfl | hb
      · exact hac
      · exact Nat.lt_trans hac (hc b hb)
    · split
      · exact h
      · next hlt hne =>
        refine List.pairwise_cons.mpr ⟨fun b hb => ?_, ih hrest⟩
        rcases (mem_insertAddress a b rest).mp hb with rfl | hb
        · omega
        · exact hc b hb

namespace Labels

theorem mem_addresses_ofItems (items : List Item) (a : Nat) :
    a ∈ (ofItems items).addresses ↔ ∃ item ∈ items, item.target? = some a := by
  have fold : ∀ l : List Nat, a ∈ l.foldr insertAddress [] ↔ a ∈ l := by
    intro l
    induction l with
    | nil => simp
    | cons b rest ih => rw [List.foldr_cons, mem_insertAddress, ih, List.mem_cons]
  rw [ofItems, fold, List.mem_filterMap]

theorem pairwise_addresses_ofItems (items : List Item) :
    (ofItems items).addresses.Pairwise (· < ·) := by
  unfold ofItems
  induction items.filterMap Item.target? with
  | nil => exact List.Pairwise.nil
  | cons b rest ih => exact pairwise_insertAddress b ih

end Labels

/-! ## 2. Lines -/

namespace Bytecode

def poolLines (c : Bytecode) : List String :=
  if c.constants.isEmpty then ["constants: []"]
  else
    "constants: [" ::
      (c.constants.toList.mapIdx fun i v => "  [" ++ toString i ++ "] = " ++ v.text) ++ ["]"]

/-- What is said after an instruction: the constant it pushes or the label it jumps to. -/
def remark (c : Bytecode) (ls : Labels) (offset : Nat) (i : Instruction) : String :=
  match i with
  | .withOperand .pushConstant index =>
    " (" ++ (c.constant? index).elim "<missing>" Value.text ++ ")"
  | _ => (i.target? offset).elim "" fun a => " (to " ++ ls.reference a ++ ")"

def itemText (c : Bytecode) (ls : Labels) (item : Item) : String :=
  match item.content with
  | .ok i => i.text ++ c.remark ls item.offset i
  | .error e => "<" ++ e.message ++ ">"

/-- Offset, label, source line and instruction. -/
def itemLineAt (c : Bytecode) (ls : Labels) (item : Item) (line : UInt32) : String :=
  "  " ++ Text.zeroPadded 4 item.offset ++ " " ++ ls.column item.offset ++ " "
    ++ Text.padLeft 4 (toString line.toNat) ++ "  " ++ c.itemText ls item

def itemLine (c : Bytecode) (ls : Labels) (item : Item) : String :=
  c.itemLineAt ls item ((c.lineAt? item.offset).getD 0)

/-- The line behind the code, for jumps that leave it. -/
def endLines (c : Bytecode) (ls : Labels) : List String :=
  if (ls.at? c.size).isSome then
    ["  " ++ Text.zeroPadded 4 c.size ++ " " ++ ls.column c.size]
  else []

def listingLines (c : Bytecode) : List String :=
  let items := c.items
  let ls := Labels.ofItems items
  c.poolLines ++ "instructions:" :: items.map (c.itemLine ls) ++ c.endLines ls

/-! ## 3. Texts -/

def listing (c : Bytecode) : String := String.join (c.listingLines.map (· ++ "\n"))

/-- The listing between braces, with the depth of the stack. -/
def dump (c : Bytecode) : String :=
  "Bytecode \x7b\n  max_stack_size: " ++ toString c.maxStack ++ "\n"
    ++ String.join (c.listingLines.map fun l => "  " ++ l ++ "\n") ++ "\x7d"

end Bytecode

end ExprLang
