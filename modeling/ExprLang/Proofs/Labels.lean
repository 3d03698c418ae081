/-
# Labels

In a listing a jump names its target by a label, and the label stands in front of the line that
begins there.  Labels are given out before the first line is written, so what a jump says and what a
line carries could differ.  They do not, because both are read off the same list: **the label of an
address is `L` and the number of targets below it** (`Bytecode.at?_ofItems`).  That number does not
depend on where the jumps are, nor on how many go to the same place.

A target need not be the beginning of a line.  Code that somebody else has put together may jump
into an operand, or behind its end, and then no line carries the label.  In generated code every
jump lands on an instruction or at the end (`Bytecode.Valid`), and then exactly one line does.

In the compiler the labels are given out in the first half of `write_listing` and used in the
second.
-/
import ExprLang.Proofs.Layout
import ExprLang.Proofs.Validity
import Mathlib.Data.Finset.Card

namespace ExprLang

open Text

/-! ## 1. Numbers in order -/

/-- The number of elements of the set below a number. -/
def rank (s : Finset Nat) (a : Nat) : Nat := (s.filter (· < a)).card

theorem strictMonoOn_rank (s : Finset Nat) : StrictMonoOn (rank s) s := by
  intro a ha b _ h
  refine Finset.card_lt_card ⟨fun x hx => ?_, fun hsub => ?_⟩
  · rw [Finset.mem_filter] at hx ⊢
    exact ⟨hx.1, Nat.lt_trans hx.2 h⟩
  · have : a ∈ s.filter (· < a) := hsub (Finset.mem_filter.mpr ⟨ha, h⟩)
    exact Nat.lt_irrefl a (Finset.mem_filter.mp this).2

/-- **Ranks are 0, 1, 2, … without a gap.** -/
theorem image_rank (s : Finset Nat) : s.image (rank s) = Finset.range s.card := by
  refine Finset.eq_of_subset_of_card_le (fun k hk => ?_) ?_
  · obtain ⟨a, ha, rfl⟩ := Finset.mem_image.mp hk
    have smaller : s.filter (· < a) ⊂ s := Finset.filter_ssubset.mpr ⟨a, ha, Nat.lt_irrefl a⟩
    exact Finset.mem_range.mpr (Finset.card_lt_card smaller)
  · rw [Finset.card_range, Finset.card_image_of_injOn (strictMonoOn_rank s).injOn]

/-- In an ascending list the index of an element is its rank. -/
theorem idxOf?_eq_rank {l : List Nat} (h : l.Pairwise (· < ·)) (a : Nat) :
    l.idxOf? a = if a ∈ l.toFinset then some (rank l.toFinset a) else none := by
  induction l with
  | nil => rfl
  | cons b l ih =>
    obtain ⟨hb, hl⟩ := List.pairwise_cons.mp h
    rw [List.idxOf?_cons, ih hl, List.toFinset_cons]
    by_cases heq : b = a
    · subst heq
      have least : (insert b l.toFinset).filter (· < b) = ∅ := by
        refine Finset.filter_eq_empty_iff.mpr fun x hx => ?_
        rcases Finset.mem_insert.mp hx with rfl | hx
        · exact Nat.lt_irrefl x
        · exact Nat.lt_asymm (hb x (List.mem_toFinset.mp hx))
      simp [rank, least]
    · by_cases ha : a ∈ l.toFinset
      · have hlt : b < a := hb a (List.mem_toFinset.mp ha)
        have new : b ∉ l.toFinset.filter (· < a) := fun hmem =>
          Nat.lt_irrefl b (hb b (List.mem_toFinset.mp (Finset.mem_filter.mp hmem).1))
        have next : rank (insert b l.toFinset) a = rank l.toFinset a + 1 := by
          rw [rank, Finset.filter_insert, if_pos hlt, Finset.card_insert_of_notMem new, rank]
        rw [if_neg (by simpa using heq), if_pos ha, if_pos (Finset.mem_insert_of_mem ha), next,
          Option.map_some]
      · have absent : a ∉ insert b l.toFinset := by simp [Ne.symm heq, ha]
        rw [if_neg (by simpa using heq), if_neg ha, if_neg absent, Option.map_none]

/-! ## 2. The label of an address -/

/-- The name of the label with a number. -/
def labelName (k : Nat) : String := "L" ++ toString k

theorem labelName_inj {j k : Nat} (h : labelName j = labelName k) : j = k := by
  have digits : Nat.toDigits 10 j = Nat.toDigits 10 k := by
    simpa [labelName] using congrArg String.toList h
  have back (n : Nat) : Nat.ofDigitChars 10 (Nat.toDigits 10 n) 0 = n :=
    Nat.ofDigitChars_toDigits (by decide) (by decide)
  rw [← back j, digits, back k]

namespace Bytecode

/-- The addresses that the jumps of the code go to. -/
def targets (c : Bytecode) : Finset Nat := (c.items.filterMap Item.target?).toFinset

/-- The label of an address, if a jump goes there. -/
def label? (c : Bytecode) (a : Nat) : Option String :=
  if a ∈ c.targets then some (labelName (rank c.targets a)) else none

variable {c : Bytecode} {item : Item} {a b : Nat} {name : String}

theorem mem_targets : a ∈ c.targets ↔ ∃ item ∈ c.items, item.target? = some a := by
  rw [targets, List.mem_toFinset, List.mem_filterMap]

theorem label?_eq_some_iff :
    c.label? a = some name ↔ a ∈ c.targets ∧ labelName (rank c.targets a) = name := by
  rw [label?, Option.ite_none_right_eq_some, Option.some.injEq]

/-- **Different targets have different labels.** -/
theorem labelName_rank_inj (ha : a ∈ c.targets) (hb : b ∈ c.targets) :
    labelName (rank c.targets a) = labelName (rank c.targets b) ↔ a = b := by
  constructor
  · exact fun h => (strictMonoOn_rank c.targets).injOn ha hb (labelName_inj h)
  · rintro rfl
    rfl

/-- An item that jumps has the label of its target. -/
theorem bind_label?_target (h : item ∈ c.items) :
    item.target?.bind c.label? = item.target?.map fun a => labelName (rank c.targets a) := by
  cases ha : item.target? with
  | none => rfl
  | some a => exact if_pos (mem_targets.mpr ⟨item, h, ha⟩)

/-- **The number of a label is the number of targets below its address.** -/
theorem at?_ofItems (c : Bytecode) (a : Nat) :
    (Labels.ofItems c.items).at? a = if a ∈ c.targets then some (rank c.targets a) else none := by
  have same : (Labels.ofItems c.items).addresses.toFinset = c.targets := by
    ext b
    rw [List.mem_toFinset, Labels.mem_addresses_ofItems, mem_targets]
  rw [Labels.at?, idxOf?_eq_rank (Labels.pairwise_addresses_ofItems c.items), same]

theorem column_ofItems (c : Bytecode) (a : Nat) :
    (Labels.ofItems c.items).column a = padLeft 4 ((c.label? a).elim "" (· ++ ":")) := by
  rw [Labels.column, at?_ofItems, label?]
  split <;> rfl

theorem reference_ofItems (h : a ∈ c.targets) :
    (Labels.ofItems c.items).reference a = labelName (rank c.targets a) := by
  rw [Labels.reference, at?_ofItems, if_pos h]
  rfl

end Bytecode

/-! ## 3. The lines of the code -/

/-- A line of the code: the offset where it begins, the label in front of it, what it says, and the
label that it goes to. -/
structure Row where
  offset : Nat
  label? : Option String
  body : String
  goesTo? : Option String

def Row.text (r : Row) : String :=
  "  " ++ zeroPadded 4 r.offset ++ " " ++ padLeft 4 (r.label?.elim "" (· ++ ":")) ++ r.body ++
    r.goesTo?.elim "" fun name => " (to " ++ name ++ ")"

namespace Bytecode

/-- What is said about an item, up to the label that it goes to. -/
def bareText (c : Bytecode) (item : Item) : String :=
  match item.content with
  | .ok (.withOperand .pushConstant index) =>
    (Instruction.withOperand .pushConstant index).text ++
      (" (" ++ (c.constant? index).elim "<missing>" Value.text ++ ")")
  | .ok i => i.text
  | .error e => "<" ++ e.message ++ ">"

def row (c : Bytecode) (item : Item) : Row where
  offset := item.offset
  label? := c.label? item.offset
  body := " " ++ padLeft 4 (toString ((c.lineAt? item.offset).getD 0).toNat) ++ "  " ++
    c.bareText item
  goesTo? := item.target?.bind c.label?

/-- The line behind the code, which is there for its label. -/
def endRow (c : Bytecode) : Row := ⟨c.size, c.label? c.size, "", none⟩

def rows (c : Bytecode) : List Row :=
  c.items.map c.row ++ if c.size ∈ c.targets then [c.endRow] else []

variable {c : Bytecode} {item : Item} {r : Row} {a : Nat} {name : String}

theorem mem_rows :
    r ∈ c.rows ↔ (∃ item ∈ c.items, c.row item = r) ∨ c.size ∈ c.targets ∧ r = c.endRow := by
  rw [rows, List.mem_append, List.mem_map, List.mem_ite_nil_right, List.mem_singleton]

/-- **A jump is written with the label of its target**, and nothing else has one behind it. -/
theorem itemText_eq (h : item ∈ c.items) :
    c.itemText (.ofItems c.items) item =
      c.bareText item ++ (c.row item).goesTo?.elim "" fun name => " (to " ++ name ++ ")" := by
  have goesTo : (c.row item).goesTo? = item.target?.map fun a => labelName (rank c.targets a) :=
    bind_label?_target h
  have named : ∀ a, item.target? = some a →
      (Labels.ofItems c.items).reference a = labelName (rank c.targets a) :=
    fun a ha => reference_ofItems (mem_targets.mpr ⟨item, h, ha⟩)
  rw [goesTo]
  obtain ⟨offset, content⟩ := item
  match content with
  | .error e => simp [itemText, bareText, Item.target?]
  | .ok (.simple op) => simp [itemText, bareText, remark, Item.target?, Instruction.target?]
  | .ok (.withOperand .pushConstant x) => exact String.append_empty.symm
  | .ok (.withOperand .jump x) | .ok (.withOperand .jumpIfFalse x) =>
    exact congrArg (fun name => Instruction.text _ ++ (" (to " ++ name ++ ")")) (named _ rfl)

/-- **The text of a row is the line of its item.** -/
theorem text_row (h : item ∈ c.items) : (c.row item).text = c.itemLine (.ofItems c.items) item := by
  rw [itemLine, itemLineAt, itemText_eq h, column_ofItems]
  simp [Row.text, row, String.append_assoc]

theorem map_text_rows (c : Bytecode) :
    c.rows.map Row.text =
      c.items.map (c.itemLine (.ofItems c.items)) ++ c.endLines (.ofItems c.items) := by
  have items : (c.items.map c.row).map Row.text = c.items.map (c.itemLine (.ofItems c.items)) := by
    rw [List.map_map]
    exact List.map_congr_left fun item h => text_row h
  have behind : (if c.size ∈ c.targets then [c.endRow] else []).map Row.text =
      c.endLines (.ofItems c.items) := by
    rw [endLines, at?_ofItems, column_ofItems]
    split
    · simp [endRow, Row.text]
    · rfl
  rw [rows, List.map_append, items, behind]

theorem splitLines_eq_rows (c : Bytecode) :
    splitLines c.listing = c.poolLines ++ ["instructions:"] ++ c.rows.map Row.text := by
  rw [splitLines_listing, listingLines, map_text_rows]
  simp

theorem map_offset_rows (c : Bytecode) :
    c.rows.map Row.offset =
      c.items.map Item.offset ++ if c.size ∈ c.targets then [c.size] else [] := by
  rw [rows, List.map_append, List.map_map, apply_ite (List.map Row.offset)]
  rfl

/-- Rows begin one behind the other. -/
theorem pairwise_rows (c : Bytecode) : (c.rows.map Row.offset).Pairwise (· < ·) := by
  rw [map_offset_rows, List.pairwise_append, List.pairwise_map]
  refine ⟨c.pairwise_items, by split <;> simp, fun a ha b hb => ?_⟩
  obtain ⟨item, hitem, rfl⟩ := List.mem_map.mp ha
  rw [List.mem_ite_nil_right, List.mem_singleton] at hb
  rw [hb.2]
  exact offset_lt_size hitem

/-- A row has the label of its offset. -/
theorem label?_of_mem_rows (h : r ∈ c.rows) : r.label? = c.label? r.offset := by
  rcases mem_rows.mp h with ⟨item, -, rfl⟩ | ⟨-, rfl⟩ <;> rfl

/-! ## 4. Labels are placed once -/

/-- The labels in front of the lines. -/
def placed (c : Bytecode) : List String := c.rows.filterMap Row.label?

/-- **No label is placed twice**, because no two lines begin at the same offset. -/
theorem nodup_placed (c : Bytecode) : c.placed.Nodup := by
  have byOffset : c.placed = (c.rows.map Row.offset).filterMap c.label? := by
    rw [placed, List.filterMap_map]
    exact List.filterMap_congr fun r hr => label?_of_mem_rows hr
  have distinct : (c.rows.map Row.offset).Nodup := c.pairwise_rows.imp Nat.ne_of_lt
  rw [byOffset]
  refine distinct.filterMap fun a b name ha hb => ?_
  obtain ⟨ha, hname⟩ := label?_eq_some_iff.mp ha
  obtain ⟨hb, hname'⟩ := label?_eq_some_iff.mp hb
  exact (labelName_rank_inj ha hb).mp (hname.trans hname'.symm)

/-- In valid code the label that a line goes to is placed. -/
theorem Valid.mem_placed (h : c.Valid) (hr : r ∈ c.rows) (hname : r.goesTo? = some name) :
    name ∈ c.placed := by
  rcases mem_rows.mp hr with ⟨item, hitem, rfl⟩ | ⟨-, rfl⟩
  · obtain ⟨a, ha, hlabel⟩ := Option.bind_eq_some_iff.mp hname
    have target : a ∈ c.targets := mem_targets.mpr ⟨item, hitem, ha⟩
    have lands : LandsIn c.items c.size a := by
      unfold Item.target? at ha
      split at ha
      · next i hi => exact ((h.items item hitem).jumps i a hi ha).2
      · cases ha
    rcases lands with rfl | ⟨i, hi⟩
    · exact List.mem_filterMap.mpr ⟨c.endRow, mem_rows.mpr (.inr ⟨target, rfl⟩), hlabel⟩
    · exact List.mem_filterMap.mpr ⟨c.row _, mem_rows.mpr (.inl ⟨_, hi, rfl⟩), hlabel⟩
  · cases hname

/-- **Labels mark the targets of the jumps**, whatever the code is.  A line for the code has its
offset, and the lines ascend; there is one for each item, and one behind the code if a jump goes
there.  A jump is written with the label of its target, and a line has a label in front of it if it
is a target.  The labels count up with the addresses and none is left out, two targets have the same
one only if they are the same, and none is placed twice.  In code that was generated, a label that a
line goes to is in front of exactly one line. -/
theorem labels_mark_targets (c : Bytecode) :
    let T := c.targets
    splitLines c.listing = c.poolLines ++ ["instructions:"] ++ c.rows.map Row.text ∧
      c.rows.map Row.offset = c.items.map Item.offset ++ (if c.size ∈ T then [c.size] else []) ∧
      (c.rows.map Row.offset).Pairwise (· < ·) ∧
      (∀ item ∈ c.items, ∃ r ∈ c.rows, r.offset = item.offset ∧
        r.goesTo? = item.target?.map fun a => labelName (rank T a)) ∧
      (∀ r ∈ c.rows, r.label? = if r.offset ∈ T then some (labelName (rank T r.offset)) else none) ∧
      StrictMonoOn (rank T) T ∧ T.image (rank T) = Finset.range T.card ∧
      (∀ a ∈ T, ∀ b ∈ T, labelName (rank T a) = labelName (rank T b) ↔ a = b) ∧
      c.placed.Nodup ∧
      ∀ g : Session,
        (∃ ts ty, g.generateProgram ts = .ok (ty, c)) ∨ (∃ t ty, g.generate t = .ok (ty, c)) →
        ∀ r ∈ c.rows, ∀ name ∈ r.goesTo?, c.placed.count name = 1 := by
  intro T
  refine ⟨c.splitLines_eq_rows, c.map_offset_rows, c.pairwise_rows, fun item hitem => ?_,
    fun r hr => label?_of_mem_rows hr, strictMonoOn_rank T, image_rank T,
    fun a ha b hb => labelName_rank_inj ha hb, c.nodup_placed, fun g hg r hr name hname => ?_⟩
  · exact ⟨c.row item, mem_rows.mpr (.inl ⟨item, hitem, rfl⟩), rfl, bind_label?_target hitem⟩
  · have valid : c.Valid := by
      rcases hg with ⟨ts, ty, h⟩ | ⟨t, ty, h⟩
      · exact valid_of_ofProgram (Session.generateProgram_ok h).1
      · rw [Session.generate_eq_generateProgram] at h
        exact valid_of_ofProgram (Session.generateProgram_ok h).1
    exact List.count_eq_one_of_mem c.nodup_placed (valid.mem_placed hr hname)

/-- `if true then 0 else if false then 0 else 0`: the jumps behind the first two branches both go to
the end of the code, and it is the third of three targets. -/
theorem labels_mark_targets_shared :
    let number : NodeInfo := ⟨.number, .zero⟩
    let truth (b : Bool) := Typed.constant ⟨.bool, .zero⟩ (.bool b)
    let zero := Typed.constant number (.number ⟨0⟩)
    let t := Typed.cond number (truth true) zero (.cond number (truth false) zero zero)
    ∃ c, (Session.new none .forbid).generate t = .ok (.number, c) ∧ c.targets = {7, 14, 16} ∧
      (∃ r ∈ c.rows, r.offset = 5 ∧ r.goesTo? = some "L2") ∧
      (∃ r ∈ c.rows, r.offset = 12 ∧ r.goesTo? = some "L2") ∧ c.placed.count "L2" = 1 := by
  intro number truth zero t
  let c : Bytecode := ⟨#[0x02, 0x41, 4, 0x01, 0, 0x40, 9, 0x03, 0x41, 4, 0x01, 0, 0x40, 2, 0x01, 0],
    Array.replicate 16 0, #[.number ⟨0⟩], 1⟩
  have generated : (Session.new none .forbid).generate t = .ok (.number, c) := by cbv
  have targets : c.targets = {7, 14, 16} := by decide
  have third : labelName (rank c.targets 16) = "L2" := by rw [targets]; decide
  obtain ⟨-, -, -, jumps, -, -, -, -, -, once⟩ := labels_mark_targets c
  have first : (⟨5, .ok (.withOperand .jump 9)⟩ : Item) ∈ c.items :=
    List.mem_of_getElem? (i := 3) rfl
  have second : (⟨12, .ok (.withOperand .jump 2)⟩ : Item) ∈ c.items :=
    List.mem_of_getElem? (i := 7) rfl
  obtain ⟨r₁, h₁, offset₁, goesTo₁⟩ := jumps _ first
  obtain ⟨r₂, h₂, offset₂, goesTo₂⟩ := jumps _ second
  have name₁ : r₁.goesTo? = some "L2" := goesTo₁.trans (congrArg some third)
  have name₂ : r₂.goesTo? = some "L2" := goesTo₂.trans (congrArg some third)
  exact ⟨c, generated, targets, ⟨r₁, h₁, offset₁, name₁⟩, ⟨r₂, h₂, offset₂, name₂⟩,
    once _ (.inr ⟨t, _, generated⟩) r₁ h₁ _ name₁⟩

end Bytecode

end ExprLang
