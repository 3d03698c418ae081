/-
# Texts without line breaks

A listing is read line by line, and it has the constants in it, which are anybody's text.  **No
constant can break a line**: whatever a string has in it, a newline in its quoted text would be a
character that is written as it is, and the only characters written so are those that can be seen.
So the text of a listing falls into the lines that it was made of (`Bytecode.splitLines_listing`).
-/
import ExprLang.Listing
import ExprLang.Text.Lines
import ExprLang.Proofs.Reading

namespace ExprLang.Text

/-! ## 1. Texts without line breaks -/

/-- No character of the text ends a line. -/
def Unbroken (cs : List Char) : Prop := ∀ c ∈ cs, c ≠ '\n' ∧ c ≠ '\r'

instance (cs : List Char) : Decidable (Unbroken cs) := List.decidableBAll _ cs

@[simp]
theorem unbroken_nil : Unbroken [] := by
  decide

@[simp]
theorem unbroken_cons {c : Char} {cs : List Char} :
    Unbroken (c :: cs) ↔ (c ≠ '\n' ∧ c ≠ '\r') ∧ Unbroken cs :=
  List.forall_mem_cons

@[simp]
theorem unbroken_append {a b : List Char} : Unbroken (a ++ b) ↔ Unbroken a ∧ Unbroken b :=
  List.forall_mem_append

theorem Unbroken.mono {a b : List Char} (h : Unbroken b) (hsub : a ⊆ b) : Unbroken a :=
  fun c hc => h c (hsub hc)

@[simp]
theorem unbroken_replicate {c : Char} (hc : c ≠ '\n' ∧ c ≠ '\r') (n : Nat) :
    Unbroken (List.replicate n c) := by
  intro d hd
  rw [List.eq_of_mem_replicate hd]
  exact hc

/-- No digit breaks a line, in any base. -/
@[simp]
theorem unbroken_toDigits {b : Nat} (hb : 1 < b) (n : Nat) : Unbroken (Nat.toDigits b n) := by
  induction n using Nat.strongRecOn with
  | ind n ih =>
    rw [Nat.toDigits_eq_if hb]
    split
    · simp
    · next hn =>
      rw [unbroken_append]
      exact ⟨ih (n / b) (Nat.div_lt_self (by omega) hb), by simp⟩

@[simp]
theorem unbroken_zeroPadded (width n : Nat) : Unbroken (zeroPadded width n).toList := by
  rw [zeroPadded, String.toList_ofList, unbroken_append]
  exact ⟨unbroken_replicate (by decide) _, unbroken_toDigits (by decide) n⟩

@[simp]
theorem unbroken_padLeft (width : Nat) {s : String} (h : Unbroken s.toList) :
    Unbroken (padLeft width s).toList := by
  simp only [padLeft, Field.fill, Alignment.spaces, String.toList_ofList, unbroken_append]
  exact ⟨⟨unbroken_replicate (by decide) _, h⟩, unbroken_replicate (by decide) _⟩

/-! ## 2. Quoted text -/

/-- The characters that are quoted by a backslash and one more character, which is the second
one. -/
def shortEscapes : List (Char × Char) :=
  [('"', '"'), ('\\', '\\'), ('\n', 'n'), ('\r', 'r'), ('\t', 't'), ('\x00', '0')]

/-- How a character is quoted: by a short escape, as it is if it can be seen, or by its code
point. -/
inductive Escaped (c : Char) : List Char → Prop where
  | short {d : Char} : (c, d) ∈ shortEscapes → Escaped c ['\\', d]
  | plain : c ∉ shortEscapes.map Prod.fst → isVisible c = true → Escaped c [c]
  | coded : c ∉ shortEscapes.map Prod.fst → isVisible c = false → Escaped c (codePoint c)

/-- A character is quoted in one of the three ways, and in the first that applies. -/
theorem escaped_escape (c : Char) : Escaped c (escape c) := by
  by_cases hc : c ∈ shortEscapes.map Prod.fst
  · obtain ⟨⟨c, d⟩, hmem, rfl⟩ := List.mem_map.mp hc
    have quoted : escape c = ['\\', d] := by
      simp only [shortEscapes, List.mem_cons, Prod.mk.injEq, List.not_mem_nil, or_false] at hmem
      rcases hmem with ⟨rfl, rfl⟩ | ⟨rfl, rfl⟩ | ⟨rfl, rfl⟩ | ⟨rfl, rfl⟩ | ⟨rfl, rfl⟩ |
        ⟨rfl, rfl⟩ <;> rfl
    rw [quoted]
    exact .short hmem
  · have others := hc
    simp only [shortEscapes, List.map_cons, List.map_nil, List.mem_cons, List.not_mem_nil, or_false,
      not_or] at others
    obtain ⟨quote, backslash, newline, carriageReturn, tab, zero⟩ := others
    rw [escape, if_neg quote, if_neg backslash, if_neg newline, if_neg carriageReturn, if_neg tab,
      if_neg zero]
    split
    · next hv => exact .plain hc hv
    · next hv => exact .coded hc (Bool.eq_false_iff.mpr hv)

/-- **A quoted character breaks no line**: each of the breaks has a short escape. -/
theorem unbroken_escape (c : Char) : Unbroken (escape c) := by
  have h := escaped_escape c
  generalize escape c = cs at h
  cases h with
  | short hmem =>
    have second : ∀ p ∈ shortEscapes, p.2 ≠ '\n' ∧ p.2 ≠ '\r' := by decide
    simpa using second _ hmem
  | plain hc _ =>
    rw [unbroken_cons]
    exact ⟨⟨fun h => hc (h ▸ by decide), fun h => hc (h ▸ by decide)⟩, unbroken_nil⟩
  | coded =>
    have digits := unbroken_toDigits (b := 16) (by decide) c.toNat
    simp [codePoint, digits]

/-- **A quoted string is on one line**, whatever is in it. -/
@[simp]
theorem unbroken_quote (s : String) : Unbroken (quote s).toList := by
  have inner : Unbroken (s.toList.flatMap escape) := by
    intro d hd
    obtain ⟨c, -, hd⟩ := List.mem_flatMap.mp hd
    exact unbroken_escape c d hd
  simp [toList_quote, inner]

/-! ## 3. Cutting a text into lines -/

/-- The lines of a text. -/
def splitLines (s : String) : List String := (lines s.toList).map String.ofList

/-- A line ends at its newline and not before. -/
theorem lines_unbroken_append {l : List Char} (h : Unbroken l) (rest : List Char) :
    lines (l ++ '\n' :: rest) = l :: lines rest := by
  induction l with
  | nil => simp [lines]
  | cons c l ih =>
    obtain ⟨⟨newline, carriageReturn⟩, hl⟩ := unbroken_cons.mp h
    rw [List.cons_append, lines, if_neg newline, ih hl]
    exact fun _ hc => absurd hc carriageReturn

theorem toList_join_cons (l : String) (ls : List String) :
    (String.join ((l :: ls).map (· ++ "\n"))).toList =
      l.toList ++ '\n' :: (String.join (ls.map (· ++ "\n"))).toList := by
  simp

/-- **Lines without breaks come back when their text is cut.** -/
theorem splitLines_join {ls : List String} (h : ∀ l ∈ ls, Unbroken l.toList) :
    splitLines (String.join (ls.map (· ++ "\n"))) = ls := by
  induction ls with
  | nil => rfl
  | cons l ls ih =>
    obtain ⟨hl, hls⟩ := List.forall_mem_cons.mp h
    rw [splitLines, toList_join_cons, lines_unbroken_append hl, List.map_cons, String.ofList_toList]
    exact congrArg (l :: ·) (ih hls)

/-- A text that is made of lines has as many newlines as lines. -/
theorem count_newline_join {ls : List String} (h : ∀ l ∈ ls, Unbroken l.toList) :
    (String.join (ls.map (· ++ "\n"))).toList.count '\n' = ls.length := by
  induction ls with
  | nil => rfl
  | cons l ls ih =>
    obtain ⟨hl, hls⟩ := List.forall_mem_cons.mp h
    have none : l.toList.count '\n' = 0 := List.count_eq_zero.mpr fun hmem => (hl _ hmem).1 rfl
    rw [toList_join_cons, List.count_append, none, List.count_cons_self, ih hls, Nat.zero_add,
      List.length_cons]

theorem getLast?_join {ls : List String} (h : ls ≠ []) :
    (String.join (ls.map (· ++ "\n"))).toList.getLast? = some '\n' := by
  obtain ⟨init, l, rfl⟩ := List.eq_nil_or_concat ls |>.resolve_left h
  simp

end ExprLang.Text

namespace ExprLang

open Text

/-! ## 4. The texts in a listing -/

theorem unbroken_positional (d : Nat) (p : Int) : Unbroken (positional d p) := by
  have digits := unbroken_toDigits (b := 10) (by decide) d
  have zeros := unbroken_replicate (c := '0') (by decide)
  unfold positional
  dsimp only
  split
  · simp [digits, zeros]
  · split
    · simp [digits, zeros]
    · simp [digits.mono (List.take_subset _ _), digits.mono (List.drop_subset _ _)]

/-- No number breaks a line. -/
@[simp]
theorem Number.unbroken_text (n : Number) : Unbroken n.text.toList := by
  have inf : Unbroken ['i', 'n', 'f'] := by decide
  unfold Number.text
  split
  · decide
  · simp only [String.toList_ofList]
    repeat' split
    all_goals simp [inf, unbroken_positional]

/-- No constant breaks a line; only a string could. -/
@[simp]
theorem Value.unbroken_text (v : Value) : Unbroken v.text.toList := by
  match v with
  | .number n => exact n.unbroken_text
  | .bool true => decide
  | .bool false => decide
  | .unit => decide
  | .str s => exact unbroken_quote s

/-- No instruction breaks a line: there are only so many mnemonics. -/
@[simp]
theorem Instruction.unbroken_text (i : Instruction) : Unbroken i.text.toList := by
  have mnemonics : ∀ op ∈ Opcode.all, Unbroken op.mnemonic.toList := by decide
  have mnemonic := mnemonics i.opcode (Opcode.mem_all i.opcode)
  unfold Instruction.text
  split
  · exact mnemonic
  · simp [mnemonic]

@[simp]
theorem DecodeError.unbroken_message (e : DecodeError) : Unbroken e.message.toList := by
  unfold DecodeError.message
  cases e with
  | unknownOpcode b =>
    simp only [String.toList_append, String.toList_ofList, unbroken_append]
    exact ⟨by decide, unbroken_replicate (by decide) _, unbroken_toDigits (by decide) _⟩
  | missingOperand op =>
    have mnemonic : Unbroken op.mnemonic.toList := by cases op <;> decide
    simp [mnemonic]
  | outOfBounds offset => simp

namespace Labels

variable (ls : Labels)

@[simp]
theorem unbroken_column (a : Nat) : Unbroken (ls.column a).toList := by
  refine unbroken_padLeft 4 ?_
  cases ls.at? a with
  | none => decide
  | some k => simp

@[simp]
theorem unbroken_reference (a : Nat) : Unbroken (ls.reference a).toList := by
  unfold reference
  split <;> simp

end Labels

namespace Bytecode

/-- The lines of the pool have no breaks, since no constant has one. -/
theorem unbroken_poolLines (c : Bytecode) : ∀ l ∈ c.poolLines, Unbroken l.toList := by
  unfold poolLines
  split
  · decide
  · intro l hl
    simp only [List.mem_append, List.mem_cons, List.mem_mapIdx, List.not_mem_nil, or_false] at hl
    rcases hl with (rfl | ⟨i, hi, rfl⟩) | rfl
    · decide
    · simp
    · decide

/-- The constant that an instruction pushes breaks no line either. -/
@[simp]
theorem unbroken_remark (c : Bytecode) (ls : Labels) (offset : Nat) (i : Instruction) :
    Unbroken (c.remark ls offset i).toList := by
  unfold remark
  split
  · next index =>
    cases c.constant? index <;> simp
  · cases i.target? offset <;> simp

@[simp]
theorem unbroken_itemText (c : Bytecode) (ls : Labels) (item : Item) :
    Unbroken (c.itemText ls item).toList := by
  unfold itemText
  split <;> simp

theorem unbroken_itemLine (c : Bytecode) (ls : Labels) (item : Item) :
    Unbroken (c.itemLine ls item).toList := by
  simp [itemLine, itemLineAt]

/-- **No line of a listing has a break in it**, whatever the constants are. -/
theorem unbroken_listingLines (c : Bytecode) : ∀ l ∈ c.listingLines, Unbroken l.toList := by
  intro l hl
  simp only [listingLines, endLines, List.mem_append, List.mem_cons, List.mem_map] at hl
  rcases hl with (hl | rfl | ⟨item, -, rfl⟩) | hl
  · exact c.unbroken_poolLines l hl
  · decide
  · exact c.unbroken_itemLine _ item
  · split at hl
    · rw [List.mem_singleton.mp hl]
      simp
    · cases hl

end Bytecode

/-! ## 5. Items are inside the code -/

/-- The items begin one behind the other at bytes of the code, and an instruction ends inside it. -/
theorem Scanned.offsets {o : Nat} {bytes : List UInt8} {items : List Item}
    (h : Scanned o bytes items) :
    items.Pairwise (fun a b => a.offset < b.offset) ∧
      ∀ item ∈ items, o ≤ item.offset ∧ item.offset < o + bytes.length ∧
        ∀ i, item.content = .ok i → item.offset + i.size ≤ o + bytes.length := by
  induction h with
  | done => simp
  | stop hbad =>
    have := hbad.length_pos
    simp [this]
  | @next o i rest items _ ih =>
    obtain ⟨ascend, inside⟩ := ih
    have := i.size_pos
    rw [List.length_append, i.length_encode]
    refine ⟨.cons (fun item hitem => ?_) ascend, fun item hitem => ?_⟩
    · have := (inside item hitem).1
      show o < item.offset
      omega
    · rcases List.mem_cons.mp hitem with rfl | hitem
      · refine ⟨Nat.le_refl o, show o < _ by omega, fun j hj => ?_⟩
        cases hj
        show o + i.size ≤ _
        omega
      · obtain ⟨behind, before, within⟩ := inside item hitem
        refine ⟨by omega, by omega, fun j hj => ?_⟩
        have := within j hj
        omega

namespace Bytecode

variable {c : Bytecode} {item : Item}

/-- No two items begin at one offset. -/
theorem pairwise_items (c : Bytecode) : c.items.Pairwise fun a b => a.offset < b.offset :=
  (decodeFrom_scanned 0 c.code.toList).offsets.1

theorem offset_lt_size (h : item ∈ c.items) : item.offset < c.size := by
  have := ((decodeFrom_scanned 0 c.code.toList).offsets.2 item h).2.1
  simpa [size] using this

/-- **Cut at its newlines, a listing is the lines that it was made of.** -/
theorem splitLines_listing (c : Bytecode) : splitLines c.listing = c.listingLines :=
  splitLines_join c.unbroken_listingLines

end Bytecode

end ExprLang
