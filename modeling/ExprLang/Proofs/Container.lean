/-
# The container, whatever is done to it

Bytecode is built by a handful of operations, in any order and by anybody: the generator is only one
who uses them.  What the container promises therefore has to hold after **every** run of edits, and
each promise is a property that one edit keeps (`Intact.edit`).

* The lines are those of the writes, in their order.  A byte is overwritten without its line.
* The pool only grows, it never has a constant twice, and it has no entry that an operand byte could
  not name.  The last one is why a constant that is there is always found: `addConstant` turns the
  position of an entry into a byte in two places, and in neither of them anything is lost
  (`addConstant_interns`).

A NaN is not the same constant as itself.  So *twice* does not mean that two entries are equal, and
a pool can be full of one NaN.

In the compiler the edits are `write`, `write_op`, `write_at` and `add_constant`, and the assignment
of `max_stack_size`.
-/
import ExprLang.Proofs.Limits

namespace ExprLang

/-! ## 1. Edits -/

/-- What can be done to bytecode. -/
inductive Edit where
  | write (byte : UInt8) (line : UInt32)
  | writeOp (op : Opcode) (line : UInt32)
  | patch (index : Nat) (byte : UInt8)
  | addConstant (v : Value)
  | setMaxStack (n : Nat)
  deriving DecidableEq, Repr

/-- The line that an edit gives to the byte it appends. -/
def Edit.line? : Edit → Option UInt32
  | .write _ line | .writeOp _ line => some line
  | .patch .. | .addConstant _ | .setMaxStack _ => none

namespace Bytecode

/-- The container after an edit; there is none if a byte is overwritten that is not there. -/
def edit? (c : Bytecode) : Edit → Option Bytecode
  | .write b line => some (c.write b line)
  | .writeOp op line => some (c.writeOp op line)
  | .patch index b => c.patch? index b
  | .addConstant v => some (c.addConstant v).2
  | .setMaxStack n => some { c with maxStack := n }

/-- The container after edits, one after another. -/
def editAll? : Bytecode → List Edit → Option Bytecode
  | c, [] => some c
  | c, e :: es => (c.edit? e).bind (·.editAll? es)

theorem editAll?_append (c : Bytecode) (a b : List Edit) :
    c.editAll? (a ++ b) = (c.editAll? a).bind (·.editAll? b) := by
  induction a generalizing c with
  | nil => rfl
  | cons e a ih => simp [editAll?, ih, Option.bind_assoc]

end Bytecode

/-! ## 2. Adding a constant -/

/-- One constant can stand for both: they are equal bit for bit, and no NaN. -/
def Value.Same (v w : Value) : Prop := v = w ∧ v.isNaN = false

instance (v w : Value) : Decidable (v.Same w) := inferInstanceAs (Decidable (_ ∧ _))

theorem Value.Same.symm {v w : Value} (h : v.Same w) : w.Same v := by
  obtain ⟨rfl, hv⟩ := h
  exact ⟨rfl, hv⟩

theorem hasEntry_iff {pool : List Value} {v : Value} : HasEntry pool v ↔ ∃ w ∈ pool, w.Same v := by
  constructor
  · rintro ⟨hmem, hv⟩
    exact ⟨v, hmem, rfl, hv⟩
  · rintro ⟨w, hw, rfl, hv⟩
    exact ⟨hw, hv⟩

namespace Bytecode

/-- What adding a constant comes to: the slot of the entry that is there already, or the next slot;
or no slot, and then the container stays as it is. -/
inductive Interns (c : Bytecode) (v : Value) : Option UInt8 × Bytecode → Prop where
  | found {i : UInt8} : HasEntry c.constants.toList v → c.constant? i = some v →
      Interns c v (some i, c)
  | added {i : UInt8} : ¬ HasEntry c.constants.toList v → i.toNat = c.constants.size →
      Interns c v (some i, { c with constants := c.constants.push v })
  | full : ¬ HasEntry c.constants.toList v → c.constants.size = 256 → Interns c v (none, c)

variable {c c' : Bytecode} {v : Value} {r : Option UInt8 × Bytecode}

/-- **An entry that is there is found, also in a full pool, and what is not there is added, if there
is room.** -/
theorem addConstant_interns (hp : c.constants.size ≤ 256) (v : Value) :
    c.Interns v (c.addConstant v) := by
  have hlen : c.constants.toList.length = c.constants.size := Array.length_toList
  rw [addConstant_eq]
  by_cases hentry : HasEntry c.constants.toList v
  · obtain ⟨x, hx⟩ := intern_of_hasEntry hentry (hlen ▸ hp)
    have slot : c.constant? x = some v := by
      rw [constant?, ← Array.getElem?_toList]
      exact (intern_some hx).2
    rw [hx]
    exact .found hentry slot
  · rw [intern_of_new hentry, hlen]
    cases hx : poolIndex? c.constants.size with
    | none =>
      have full : ¬ c.constants.size < 256 := fun room => by simp [poolIndex?, room] at hx
      exact .full hentry (by omega)
    | some x =>
      have grown : (c.constants.toList ++ [v]).toArray = c.constants.push v := by
        simp [← Array.toList_inj]
      simp only [Option.map_some, Option.elim_some, grown]
      exact .added hentry (poolIndex_some hx)

theorem Interns.constant {i : UInt8} (h : c.Interns v r) (hr : r = (some i, c')) :
    c'.constant? i = some v := by
  cases h with
  | found _ hi =>
    cases hr
    exact hi
  | added _ hi =>
    cases hr
    rw [constant?, hi, Array.getElem?_push_size]
  | full => cases hr

/-- There is no room in a full pool for a constant that it does not have, and that is the only
failure. -/
theorem Interns.eq_none_iff (h : c.Interns v r) :
    r.1 = none ↔ c.constants.size = 256 ∧ ¬ HasEntry c.constants.toList v := by
  cases h with
  | found hentry _ => simp [hentry]
  | @added i hentry hi =>
    have room : c.constants.size < 256 := hi ▸ i.toNat_lt
    simp [Nat.ne_of_lt room]
  | full hentry hfull => simp [hentry, hfull]

/-- A constant that is refused changes nothing. -/
theorem Interns.unchanged (h : c.Interns v r) (hr : r.1 = none) : r.2 = c := by
  cases h with
  | found => rfl
  | added => cases hr
  | full => rfl

/-! ## 3. What an edit keeps -/

/-- `c.Intact edits`: the container keeps its promises after the edits. -/
structure Intact (c : Bytecode) (edits : List Edit) : Prop where
  size : c.code.size = c.lines.size
  lines : c.lines.toList = edits.filterMap Edit.line?
  pool : c.constants.size ≤ 256
  distinct : c.constants.toList.Pairwise fun v w => ¬ v.Same w

theorem intact_empty : empty.Intact [] :=
  ⟨rfl, rfl, Nat.zero_le 256, .nil⟩

/-- **Everything that an edit can do**: it appends a byte with a line; or it leaves the lines and
the number of the bytes as they are, and the pool too unless it has a new constant for it. -/
theorem edit_cases {e : Edit} (hp : c.constants.size ≤ 256) (he : c.edit? e = some c') :
    (∃ b line, e.line? = some line ∧ c' = c.write b line) ∨
      (e.line? = none ∧ c'.code.size = c.code.size ∧ c'.lines = c.lines ∧
        (c'.constants = c.constants ∨ ∃ v, ¬ HasEntry c.constants.toList v ∧
          c.constants.size < 256 ∧ c'.constants = c.constants.push v)) := by
  cases e with
  | write b line =>
    cases he
    exact Or.inl ⟨b, line, rfl, rfl⟩
  | writeOp op line =>
    cases he
    exact Or.inl ⟨op.byte, line, rfl, rfl⟩
  | patch index b =>
    obtain ⟨-, -, lines, constants, -⟩ := patch?_eq_some_iff.mp he
    exact Or.inr ⟨rfl, size_of_patch? he, lines, Or.inl constants⟩
  | addConstant v =>
    cases he
    have interns := addConstant_interns hp v
    generalize c.addConstant v = r at interns ⊢
    cases interns with
    | found => exact Or.inr ⟨rfl, rfl, rfl, Or.inl rfl⟩
    | @added i hentry hi => exact Or.inr ⟨rfl, rfl, rfl, Or.inr ⟨v, hentry, hi ▸ i.toNat_lt, rfl⟩⟩
    | full => exact Or.inr ⟨rfl, rfl, rfl, Or.inl rfl⟩
  | setMaxStack n =>
    cases he
    exact Or.inr ⟨rfl, rfl, rfl, Or.inl rfl⟩

/-- **Every edit keeps the promises.** -/
theorem Intact.edit {edits : List Edit} {e : Edit} (h : c.Intact edits) (he : c.edit? e = some c') :
    c'.Intact (edits ++ [e]) := by
  obtain ⟨size, lines, pool, distinct⟩ := h
  rcases edit_cases pool he with ⟨b, line, hline, rfl⟩ | ⟨hline, hsize, hlines, hpool⟩
  · refine ⟨?_, ?_, pool, distinct⟩
    · simp [write, size]
    · simp [write, lines, hline]
  · have kept : c'.lines.toList = (edits ++ [e]).filterMap Edit.line? := by
      simp [hlines, lines, hline]
    have same_size : c'.code.size = c'.lines.size := by rw [hsize, hlines, size]
    rcases hpool with hpool | ⟨v, hentry, room, hpool⟩
    · exact ⟨same_size, kept, hpool ▸ pool, hpool ▸ distinct⟩
    · refine ⟨same_size, kept, ?_, ?_⟩
      · rw [hpool, Array.size_push]
        omega
      · rw [hpool, Array.toList_push, List.pairwise_append]
        refine ⟨distinct, List.pairwise_singleton _ _, fun w hw u hu => ?_⟩
        rw [List.mem_singleton.mp hu]
        exact fun same => hentry (hasEntry_iff.mpr ⟨w, hw, same⟩)

/-- No edit moves an entry of the pool or changes it. -/
theorem constants_edit {e : Edit} (hp : c.constants.size ≤ 256) (he : c.edit? e = some c') :
    c.constants.toList <+: c'.constants.toList := by
  rcases edit_cases hp he with ⟨b, line, -, rfl⟩ | ⟨-, -, -, hpool | ⟨v, -, -, hpool⟩⟩
  · exact List.prefix_refl _
  · simp only [hpool, List.prefix_refl]
  · rw [hpool, Array.toList_push]
    exact List.prefix_append ..

/-! ## 4. What a run keeps -/

theorem Intact.editAll {before es : List Edit} (h : c.Intact before)
    (hes : c.editAll? es = some c') :
    c'.Intact (before ++ es) ∧ c.constants.toList <+: c'.constants.toList := by
  induction es generalizing c before with
  | nil =>
    cases hes
    rw [List.append_nil]
    exact ⟨h, List.prefix_refl _⟩
  | cons e es ih =>
    obtain ⟨c₁, he, hrest⟩ := Option.bind_eq_some_iff.mp hes
    obtain ⟨intact, grows⟩ := ih (h.edit he) hrest
    rw [List.append_assoc, List.singleton_append] at intact
    exact ⟨intact, (constants_edit h.pool he).trans grows⟩

/-- **After every run of edits the container keeps its promises.** -/
theorem intact_of_editAll {edits : List Edit} (h : empty.editAll? edits = some c) :
    c.Intact edits :=
  (intact_empty.editAll h).1

/-- What is there after a part of a run is still there at its end. -/
theorem prefix_of_editAll {before after : List Edit} {c₀ : Bytecode}
    (h₀ : empty.editAll? before = some c₀) (h : empty.editAll? (before ++ after) = some c) :
    c₀.constants.toList <+: c.constants.toList := by
  rw [editAll?_append, h₀] at h
  exact ((intact_of_editAll h₀).editAll h).2

/-- A byte keeps the line that it was written with. -/
theorem lineAt_of_editAll {before after : List Edit} {e : Edit} {c₀ : Bytecode} {line : UInt32}
    (h₀ : empty.editAll? before = some c₀) (he : e.line? = some line)
    (h : empty.editAll? (before ++ e :: after) = some c) : c.lineAt? c₀.size = some line := by
  have position : c₀.size = (before.filterMap Edit.line?).length := by
    rw [← (intact_of_editAll h₀).lines, Array.length_toList, ← (intact_of_editAll h₀).size,
      Bytecode.size]
  rw [lineAt?, ← Array.getElem?_toList, (intact_of_editAll h).lines, List.filterMap_append,
    List.filterMap_cons_some he, position, List.getElem?_append_right (Nat.le_refl _), Nat.sub_self,
    List.getElem?_cons_zero]

/-- No two entries of the pool are the same constant. -/
theorem Intact.not_same {edits : List Edit} (h : c.Intact edits) {i j : Nat} {v w : Value}
    (hij : i ≠ j) (hi : c.constants[i]? = some v) (hj : c.constants[j]? = some w) : ¬ v.Same w := by
  obtain ⟨hi', rfl⟩ := Array.getElem?_eq_some_iff.mp hi
  obtain ⟨hj', rfl⟩ := Array.getElem?_eq_some_iff.mp hj
  have ordered := List.pairwise_iff_getElem.mp h.distinct
  rcases Nat.lt_or_gt_of_ne hij with hlt | hgt
  · exact ordered i j hi' hj' hlt
  · exact fun same => ordered j i hj' hi' hgt same.symm

/-- **The container keeps its promises, whatever is done to it.**  After every run of edits from the
empty container: there is a line for every byte, the lines are those of the writes, and a byte has
the one that it was written with; the pool has at most 256 entries, no two of them are the same
constant, and each is where it was when it was added.  Adding a constant gives a slot that holds it,
bit for bit: that of the same constant if there is one, else the next one; and it fails, and changes
nothing, only if the pool is full and does not have the constant. -/
theorem container_stays_intact {edits : List Edit} {c : Bytecode}
    (h : empty.editAll? edits = some c) :
    c.lines.size = c.code.size ∧ c.lines.toList = edits.filterMap Edit.line? ∧
      (∀ before e after c₀ line, edits = before ++ e :: after → empty.editAll? before = some c₀ →
        e.line? = some line → c.lineAt? c₀.size = some line) ∧
      c.constants.size ≤ 256 ∧
      (∀ (i j : Nat) (v w : Value), i ≠ j → c.constants[i]? = some v → c.constants[j]? = some w →
        ¬ v.Same w) ∧
      (∀ before after c₀, edits = before ++ after → empty.editAll? before = some c₀ →
        c₀.constants.toList <+: c.constants.toList) ∧
      ∀ v, c.Interns v (c.addConstant v) ∧
        (∀ i c', c.addConstant v = (some i, c') → c'.constant? i = some v) ∧
        ((c.addConstant v).1 = none ↔ c.constants.size = 256 ∧ ¬ HasEntry c.constants.toList v) ∧
        ((c.addConstant v).1 = none → (c.addConstant v).2 = c) := by
  have intact := intact_of_editAll h
  refine ⟨intact.size.symm, intact.lines, ?_, intact.pool, fun i j v w => intact.not_same, ?_,
    fun v => ?_⟩
  · rintro before e after c₀ line rfl h₀ he
    exact lineAt_of_editAll h₀ he h
  · rintro before after c₀ rfl h₀
    exact prefix_of_editAll h₀ h
  · have interns := addConstant_interns intact.pool v
    exact ⟨interns, fun i c' => interns.constant, interns.eq_none_iff, interns.unchanged⟩

/-- A NaN takes a new entry every time. -/
theorem editAll_nans {v : Value} (hv : v.isNaN = true) (n : Nat) :
    ∀ {c : Bytecode}, c.constants.size + n ≤ 256 → c.editAll? (List.replicate n (.addConstant v)) =
      some { c with constants := c.constants ++ Array.replicate n v } := by
  induction n with
  | zero => simp [editAll?]
  | succ n ih =>
    intro c room
    have added : c.edit? (.addConstant v) = some { c with constants := c.constants.push v } := by
      have interns := addConstant_interns (c := c) (by omega) v
      rw [edit?]
      generalize c.addConstant v = r at interns ⊢
      cases interns with
      | found entry => simp [HasEntry, hv] at entry
      | added => rfl
      | full _ full => omega
    have rest : (c.constants.push v).size + n ≤ 256 := by
      rw [Array.size_push]
      omega
    rw [List.replicate_succ, editAll?, added, Option.bind_some, ih rest]
    simp [← Array.toList_inj, List.replicate_succ]

/-- An operand that is overwritten keeps its line; a pool with `0.0` and 255 times the same NaN is
full, and then `0.0` is found in it and `-0.0` is not. -/
theorem container_stays_intact_full :
    let zero := Value.number ⟨0⟩
    let nan := Value.number ⟨0x7ff8000000000000⟩
    let before := [Edit.writeOp (.withOperand .jump) 1]
    let after := .patch 1 7 :: .addConstant zero :: List.replicate 255 (.addConstant nan)
    ∃ c, empty.editAll? (before ++ .write 0 2 :: after) = some c ∧ c.lineAt? 1 = some 2 ∧
      c.constants.toList = zero :: List.replicate 255 nan ∧
      (∃ i, c.addConstant zero = (some i, c)) ∧
      c.addConstant (.number ⟨0x8000000000000000⟩) = (none, c) := by
  intro zero nan before after
  let first : Bytecode := ⟨#[0x40, 7], #[1, 2], #[zero], 0⟩
  have started : empty.editAll? (before ++ [.write 0 2, .patch 1 7, .addConstant zero]) =
      some first := rfl
  have filled := editAll_nans (v := nan) rfl 255 (c := first) (by decide)
  have built : empty.editAll? (before ++ .write 0 2 :: after) =
      some { first with constants := #[zero] ++ Array.replicate 255 nan } := by
    have split : before ++ .write 0 2 :: after =
      (before ++ [.write 0 2, .patch 1 7, .addConstant zero]) ++
        List.replicate 255 (.addConstant nan) := rfl
    rw [split, editAll?_append, started, Option.bind_some, filled]
  have constants : (#[zero] ++ Array.replicate 255 nan).toList =
      zero :: List.replicate 255 nan := by
    rw [Array.toList_append, Array.toList_replicate]
    rfl
  obtain ⟨-, -, lines, -, -, -, adds⟩ := container_stays_intact built
  refine ⟨_, built, lines before (.write 0 2) after _ 2 rfl rfl rfl, constants, ?_, ?_⟩
  · have entry : HasEntry (#[zero] ++ Array.replicate 255 nan).toList zero :=
      ⟨constants ▸ List.mem_cons_self, rfl⟩
    generalize hr : addConstant _ zero = r
    cases hr ▸ (adds zero).1 with
    | found => exact ⟨_, rfl⟩
    | added absent => exact absurd entry absent
    | full absent => exact absurd entry absent
  · have full : (#[zero] ++ Array.replicate 255 nan).size = 256 := by
      rw [Array.size_append, Array.size_replicate]
      rfl
    have absent : ¬ HasEntry (#[zero] ++ Array.replicate 255 nan).toList
        (.number ⟨0x8000000000000000⟩) := by
      rw [constants, hasEntry_iff]
      rintro ⟨w, hw, rfl, -⟩
      rcases List.mem_cons.mp hw with hw | hw
      · exact absurd hw (by decide)
      · exact absurd (List.eq_of_mem_replicate hw) (by decide)
    have refused := (adds _).2.2.1.mpr ⟨full, absent⟩
    exact Prod.ext refused ((adds _).2.2.2 refused)

end Bytecode

end ExprLang
