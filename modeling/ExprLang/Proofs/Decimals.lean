/-
# The text of a number says which number it is

A number is written with digits that read back to it: they are found by a search, and every hit of
the search lies in the interval of reals that round to the number.  **These intervals meet
nowhere.**  The top of one is the bottom of the next, and of two neighbours the one with the even
word has the point between them.  So a decimal reads back to one magnitude at most
(`Rounding.eq_of_contains`).

The text of a decimal has its value in it (`decimalValue_positional`), and so the text of a number
that is no NaN determines the number, down to the sign of a zero (`Number.text_inj`).
-/
import ExprLang.Number.Decimal
import Mathlib.Algebra.Order.Field.Power
import Mathlib.Data.List.TakeWhile
import Mathlib.Data.Rat.Cast.Order
import Mathlib.Tactic.Positivity
import Mathlib.Tactic.Ring

namespace ExprLang

namespace Rounding

/-! ## 1. The reals of an interval -/

def bottom (r : Rounding) : ℚ := r.low * 2 ^ r.unit

def top (r : Rounding) : ℚ := r.high * 2 ^ r.unit

/-- The rational rounds to the double. -/
def Contains (r : Rounding) (x : ℚ) : Prop :=
  if r.closed then r.bottom ≤ x ∧ x ≤ r.top else r.bottom < x ∧ x < r.top

/-- Strictly between the ends of an interval everything rounds to the double in it. -/
theorem contains_of_lt {r : Rounding} {x : ℚ} (hb : r.bottom < x) (ht : x < r.top) :
    r.Contains x := by
  unfold Contains
  split
  · exact ⟨hb.le, ht.le⟩
  · exact ⟨hb, ht⟩

theorem Contains.bottom_le {r : Rounding} {x : ℚ} (h : r.Contains x) : r.bottom ≤ x := by
  unfold Contains at h
  split at h
  · exact h.1
  · exact h.1.le

theorem Contains.le_top {r : Rounding} {x : ℚ} (h : r.Contains x) : x ≤ r.top := by
  unfold Contains at h
  split at h
  · exact h.2
  · exact h.2.le

/-- An end that rounds to the double is in a closed interval. -/
theorem Contains.closed_of_end {r : Rounding} {x : ℚ} (h : r.Contains x)
    (hx : x = r.bottom ∨ x = r.top) : r.closed = true := by
  unfold Contains at h
  split at h
  · assumption
  · rcases hx with rfl | rfl
    · exact absurd h.1 (lt_irrefl _)
    · exact absurd h.2 (lt_irrefl _)

/-! ## 2. What the search finds -/

theorem pow_toNat_eq {b : ℚ} (hb : b ≠ 0) (i : Int) : b ^ i.toNat = b ^ i * b ^ (-i).toNat := by
  rw [← zpow_natCast, ← zpow_natCast, ← zpow_add₀ hb]
  congr 1
  omega

/-- **Units and steps have a common measure**, so that comparing whole numbers of them compares the
reals they stand for. -/
theorem common_measure (r : Rounding) (p : Int) :
    ∃ c : ℚ, 0 < c ∧ (∀ a : Nat, ((a * r.unitOver p : Nat) : ℚ) = a * 2 ^ r.unit * c) ∧
      ∀ d : Nat, ((d * r.gridOver p : Nat) : ℚ) = d * 10 ^ p * c := by
  have two := pow_toNat_eq (b := 2) (by norm_num) r.unit
  have ten := pow_toNat_eq (b := 10) (by norm_num) p
  refine ⟨2 ^ (-r.unit).toNat * 10 ^ (-p).toNat, by positivity, fun a => ?_, fun d => ?_⟩
  · simp only [unitOver, Nat.pow_eq, Nat.cast_mul, Nat.cast_pow, Nat.cast_ofNat, two]
    ring
  · simp only [gridOver, Nat.pow_eq, Nat.cast_mul, Nat.cast_pow, Nat.cast_ofNat, ten]
    ring

/-- **The check on whole numbers is the statement about rationals.** -/
theorem readsBack_iff (r : Rounding) (d : Nat) (p : Int) :
    r.readsBack d p = true ↔ r.Contains (d * 10 ^ p) := by
  obtain ⟨c, hc, units, steps⟩ := r.common_measure p
  have le_left : r.low * r.unitOver p ≤ d * r.gridOver p ↔ r.bottom ≤ d * 10 ^ p := by
    rw [← Nat.cast_le (α := ℚ), units, steps, mul_le_mul_iff_left₀ hc, bottom]
  have le_right : d * r.gridOver p ≤ r.high * r.unitOver p ↔ d * 10 ^ p ≤ r.top := by
    rw [← Nat.cast_le (α := ℚ), units, steps, mul_le_mul_iff_left₀ hc, top]
  have lt_left : r.low * r.unitOver p < d * r.gridOver p ↔ r.bottom < d * 10 ^ p := by
    rw [← Nat.cast_lt (α := ℚ), units, steps, mul_lt_mul_iff_left₀ hc, bottom]
  have lt_right : d * r.gridOver p < r.high * r.unitOver p ↔ d * 10 ^ p < r.top := by
    rw [← Nat.cast_lt (α := ℚ), units, steps, mul_lt_mul_iff_left₀ hc, top]
  unfold readsBack Contains
  dsimp only
  split
  · rw [decide_eq_true_iff, le_left, le_right]
  · rw [decide_eq_true_iff, lt_left, lt_right]

/-- A hit on a grid reads back. -/
theorem readsBack_of_onGrid {r : Rounding} {p : Int} {d : Nat} (h : r.onGrid p = some d) :
    r.readsBack d p = true := by
  unfold onGrid at h
  dsimp only at h
  split at h
  · next below above =>
    rw [Option.some.injEq] at h
    split at h
    · exact h ▸ below
    · exact h ▸ above
  · next below _ => exact Option.some.inj h ▸ below
  · next _ above => exact Option.some.inj h ▸ above
  · cases h

/-- The exact value of a double is a decimal. -/
theorem value_expansion (r : Rounding) :
    (r.expansion.1 : ℚ) * 10 ^ r.expansion.2 = r.mid * 2 ^ r.unit := by
  have two := pow_toNat_eq (b := 2) (by norm_num) r.unit
  have ten : (10 : ℚ) ^ (-r.unit).toNat = 2 ^ (-r.unit).toNat * 5 ^ (-r.unit).toNat := by
    rw [← mul_pow]
    norm_num
  simp only [expansion, Nat.pow_eq, Nat.cast_mul, Nat.cast_pow, Nat.cast_ofNat, two, zpow_neg,
    zpow_natCast, ten]
  rw [← div_eq_mul_inv, div_eq_iff (by positivity)]
  ring

/-- **What is found rounds to the double**, be it a hit on a grid or the exact value. -/
theorem contains_shortest {r : Rounding} (hl : r.low < r.mid) (hh : r.mid < r.high) :
    r.Contains (r.shortest.1 * 10 ^ r.shortest.2) := by
  have unit_pos : (0 : ℚ) < 2 ^ r.unit := by positivity
  unfold shortest
  dsimp only
  cases hit : (List.range 24).findSome? fun (i : Nat) =>
    (r.onGrid (r.coarsest - i)).map (·, r.coarsest - (i : Int)) with
  | none =>
    rw [Option.getD_none, value_expansion]
    refine contains_of_lt ?_ ?_
    · exact mul_lt_mul_of_pos_right (by exact_mod_cast hl) unit_pos
    · exact mul_lt_mul_of_pos_right (by exact_mod_cast hh) unit_pos
  | some found =>
    obtain ⟨i, -, hi⟩ := List.exists_of_findSome?_eq_some hit
    obtain ⟨d, hd, rfl⟩ := Option.map_eq_some_iff.mp hi
    exact (r.readsBack_iff d _).mp (readsBack_of_onGrid hd)

/-! ## 3. One interval behind the other -/

open Number (exponentUnit)

/-- The digits of a magnitude with the leading one, which only the smallest magnitudes lack. -/
def significand (k : Nat) : Nat :=
  if k / exponentUnit = 0 then k % exponentUnit else k % exponentUnit + exponentUnit

/-- How many units the interval has below its middle. -/
def reach (k : Nat) : Nat := if k % exponentUnit = 0 ∧ 1 < k / exponentUnit then 1 else 2

/-- The interval of the doubles with a magnitude.  Magnitudes are counted, so the next one has a
name. -/
def ofMagnitude (k : Nat) : Rounding :=
  { low := 4 * significand k - reach k, mid := 4 * significand k, high := 4 * significand k + 2,
    unit := (max (k / exponentUnit) 1 : Nat) - 1077, closed := significand k % 2 == 0 }

theorem ofNumber_eq (n : Number) : ofNumber n = ofMagnitude n.magnitude := rfl

theorem significand_cases (k : Nat) : k / exponentUnit = 0 ∧ significand k = k % exponentUnit ∨
    k / exponentUnit ≠ 0 ∧ significand k = k % exponentUnit + exponentUnit := by
  unfold significand
  split
  · next h => exact .inl ⟨h, rfl⟩
  · next h => exact .inr ⟨h, rfl⟩

theorem reach_cases (k : Nat) : (k % exponentUnit = 0 ∧ 1 < k / exponentUnit) ∧ reach k = 1 ∨
    ¬ (k % exponentUnit = 0 ∧ 1 < k / exponentUnit) ∧ reach k = 2 := by
  unfold reach
  split
  · next h => exact .inl ⟨h, rfl⟩
  · next h => exact .inr ⟨h, rfl⟩

theorem low_lt_mid {k : Nat} (hk : k ≠ 0) : (ofMagnitude k).low < (ofMagnitude k).mid := by
  have hs := significand_cases k
  have hr := reach_cases k
  simp only [ofMagnitude]
  unfold exponentUnit at hs hr
  omega

theorem mid_lt_high (k : Nat) : (ofMagnitude k).mid < (ofMagnitude k).high :=
  Nat.lt_add_of_pos_right (by decide)

/-- An interval has its ends in it if its magnitude is even. -/
theorem closed_ofMagnitude (k : Nat) : (ofMagnitude k).closed = decide (k % 2 = 0) := by
  have hs := significand_cases k
  unfold exponentUnit at hs
  exact decide_eq_decide.mpr (by omega)

/-- **An interval ends where the next one begins**, also where the exponent goes up and the unit
doubles. -/
theorem top_ofMagnitude (k : Nat) : (ofMagnitude k).top = (ofMagnitude (k + 1)).bottom := by
  have hs := significand_cases k
  have hs' := significand_cases (k + 1)
  have hr := reach_cases (k + 1)
  unfold exponentUnit at hs hs' hr
  by_cases carry : (k + 1) % exponentUnit = 0 ∧ k / exponentUnit ≠ 0
  · -- the unit doubles, and the next interval reaches half as far below its middle
    unfold exponentUnit at carry
    have unit : (ofMagnitude (k + 1)).unit = (ofMagnitude k).unit + 1 := by
      simp only [ofMagnitude, exponentUnit]
      omega
    have low : 2 * (ofMagnitude (k + 1)).low = (ofMagnitude k).high := by
      simp only [ofMagnitude]
      omega
    rw [top, bottom, unit, ← low, zpow_add_one₀ (by norm_num), Nat.cast_mul, Nat.cast_ofNat]
    ring
  · unfold exponentUnit at carry
    have unit : (ofMagnitude (k + 1)).unit = (ofMagnitude k).unit := by
      simp only [ofMagnitude, exponentUnit]
      omega
    have low : (ofMagnitude (k + 1)).low = (ofMagnitude k).high := by
      simp only [ofMagnitude]
      omega
    rw [top, bottom, unit, low]

/-- Intervals ascend with their magnitudes. -/
theorem strictMono_bottom : StrictMono fun k => (ofMagnitude k).bottom := by
  refine strictMono_nat_of_lt_succ fun k => ?_
  rw [← top_ofMagnitude]
  have low_lt_high : (ofMagnitude k).low < (ofMagnitude k).high := by
    simp only [ofMagnitude]
    omega
  exact mul_lt_mul_of_pos_right (by exact_mod_cast low_lt_high) (by positivity)

/-- **A rational rounds to one magnitude at most.** -/
theorem eq_of_contains {j k : Nat} {x : ℚ} (hj : (ofMagnitude j).Contains x)
    (hk : (ofMagnitude k).Contains x) : j = k := by
  have not_lt {j k : Nat} (hj : (ofMagnitude j).Contains x) (hk : (ofMagnitude k).Contains x) :
      ¬ j < k := by
    intro hlt
    have below : x ≤ (ofMagnitude (j + 1)).bottom := top_ofMagnitude j ▸ hj.le_top
    have above : (ofMagnitude k).bottom ≤ x := hk.bottom_le
    have order : (ofMagnitude (j + 1)).bottom ≤ (ofMagnitude k).bottom :=
      strictMono_bottom.monotone hlt
    -- only neighbours are left, with the point between them in both
    obtain rfl : k = j + 1 := strictMono_bottom.injective (le_antisymm (above.trans below) order)
    have even := hj.closed_of_end (.inr ((le_antisymm below above).trans (top_ofMagnitude j).symm))
    have even' := hk.closed_of_end (.inl (le_antisymm below above))
    rw [closed_ofMagnitude, decide_eq_true_iff] at even even'
    omega
  exact Nat.le_antisymm (Nat.not_lt.mp (not_lt hk hj)) (Nat.not_lt.mp (not_lt hj hk))

end Rounding

/-! ## 4. The value of a decimal text -/

/-- The value of digits with a point or without one. -/
def decimalValue (cs : List Char) : ℚ :=
  let whole := cs.takeWhile (· != '.')
  let places := (cs.dropWhile (· != '.')).tail
  Nat.ofDigitChars 10 (whole ++ places) 0 * 10 ^ (-(places.length : Int))

theorem decimalValue_whole {ds : List Char} (h : '.' ∉ ds) :
    decimalValue ds = Nat.ofDigitChars 10 ds 0 := by
  have all : ∀ c ∈ ds, (c != '.') = true := fun c hc => bne_iff_ne.mpr fun heq => h (heq ▸ hc)
  simp [decimalValue, List.takeWhile_eq_self_iff.mpr all, List.dropWhile_eq_nil_iff.mpr all]

theorem decimalValue_point {ds : List Char} (h : '.' ∉ ds) (places : List Char) :
    decimalValue (ds ++ '.' :: places) =
      Nat.ofDigitChars 10 (ds ++ places) 0 * 10 ^ (-(places.length : Int)) := by
  have all : ∀ c ∈ ds, (c != '.') = true := fun c hc => bne_iff_ne.mpr fun heq => h (heq ▸ hc)
  simp [decimalValue, List.takeWhile_append_of_pos all, List.dropWhile_append_of_pos all]

theorem isDigit_of_mem_digits {d : Nat} {c : Char} (h : c ∈ Nat.toDigits 10 d) : c.isDigit = true :=
  Nat.isDigit_of_mem_toDigits (by decide) (by decide) h

/-- **The text of a decimal has its value in it.** -/
theorem decimalValue_positional (d : Nat) (p : Int) :
    decimalValue (positional d p) = d * 10 ^ p := by
  have no_point : '.' ∉ Nat.toDigits 10 d := fun h => absurd (isDigit_of_mem_digits h) (by decide)
  unfold positional
  dsimp only
  split
  · next hp =>
    have whole : ((p.toNat : Nat) : Int) = p := by omega
    rw [decimalValue_whole (by simp [no_point]), Nat.ofDigitChars_append,
      Nat.ofDigitChars_replicate_zero, Nat.ofDigitChars_ten_toDigits, ← whole]
    push_cast
    rw [zpow_natCast, mul_comm, Int.toNat_natCast]
  · next hp =>
    have places : -(((-p).toNat : Nat) : Int) = p := by omega
    split
    · next hlen =>
      have zeros (n : Nat) : Nat.ofDigitChars 10 ('0' :: List.replicate n '0') 0 = 0 := by
        rw [← List.replicate_succ, Nat.ofDigitChars_replicate_zero, Nat.mul_zero]
      rw [← List.singleton_append, decimalValue_point (by decide), ← List.append_assoc,
        Nat.ofDigitChars_append, List.singleton_append, zeros, Nat.ofDigitChars_ten_toDigits,
        List.length_append, List.length_replicate, Nat.sub_add_cancel hlen, places]
    · next hlen =>
      have point : '.' ∉ (Nat.toDigits 10 d).take ((Nat.toDigits 10 d).length - (-p).toNat) :=
        fun h => no_point (List.mem_of_mem_take h)
      rw [decimalValue_point point, List.take_append_drop, Nat.ofDigitChars_ten_toDigits,
        List.length_drop, Nat.sub_sub_self (by omega), places]

/-- Digits and points, a digit first. -/
structure IsNumeral (cs : List Char) : Prop where
  start : ∃ c ∈ cs.head?, c.isDigit = true
  digits : ∀ c ∈ cs, c.isDigit = true ∨ c = '.'

theorem isNumeral_append {a b : List Char} (hne : a ≠ []) (ha : ∀ c ∈ a, c.isDigit = true)
    (hb : ∀ c ∈ b, c.isDigit = true ∨ c = '.') : IsNumeral (a ++ b) := by
  refine ⟨?_, List.forall_mem_append.mpr ⟨fun c hc => .inl (ha c hc), hb⟩⟩
  obtain ⟨c, a, rfl⟩ := List.exists_cons_of_ne_nil hne
  exact ⟨c, rfl, ha c List.mem_cons_self⟩

/-- A decimal is written with digits and points, a digit first. -/
theorem isNumeral_positional (d : Nat) (p : Int) : IsNumeral (positional d p) := by
  have digits : ∀ c ∈ Nat.toDigits 10 d, c.isDigit = true := fun c => isDigit_of_mem_digits
  have zeros (n : Nat) : ∀ c ∈ List.replicate n '0', c.isDigit = true := by
    intro c hc
    rw [List.eq_of_mem_replicate hc]
    decide
  unfold positional
  dsimp only
  split
  · exact isNumeral_append Nat.toDigits_ne_nil digits fun c hc => .inl (zeros _ c hc)
  · split
    · refine isNumeral_append (a := ['0']) (by decide) (by simp)
        (List.forall_mem_cons.mpr ⟨.inr rfl, ?_⟩)
      intro c hc
      exact .inl ((List.mem_append.mp hc).elim (zeros _ c) (digits c))
    · next hlen =>
      refine isNumeral_append ?_ (fun c hc => digits c (List.mem_of_mem_take hc))
        (List.forall_mem_cons.mpr ⟨.inr rfl, fun c hc => .inl (digits c (List.mem_of_mem_drop hc))⟩)
      rw [ne_eq, List.take_eq_nil_iff]
      simp only [Nat.toDigits_ne_nil, or_false]
      omega

/-! ## 5. Numbers -/

namespace Number

/-- The text of the numbers with a magnitude, without the sign. -/
def magnitudeText (k : Nat) : List Char :=
  if k = infinity then ['i', 'n', 'f']
  else if k = 0 then ['0']
  else positional (Rounding.ofMagnitude k).shortest.1 (Rounding.ofMagnitude k).shortest.2

/-- The text of a number is its sign and the text of its magnitude. -/
theorem toList_text {n : Number} (h : n.isNaN = false) :
    n.text.toList = (if n.isNegative then ['-'] else []) ++ magnitudeText n.magnitude := by
  unfold text magnitudeText
  rw [h, if_neg Bool.false_ne_true, String.toList_ofList, Rounding.ofNumber_eq]
  simp only [isInfinite, isZero, beq_iff_eq]
  split
  · rfl
  · rfl

theorem isNumeral_magnitudeText {k : Nat} (hk : k ≠ infinity) : IsNumeral (magnitudeText k) := by
  rw [magnitudeText, if_neg hk]
  split
  · exact isNumeral_append (a := ['0']) (b := []) (by decide) (by simp) (by simp)
  · exact isNumeral_positional _ _

/-- **The text of a magnitude is in its interval**, so it is read back as that magnitude. -/
theorem contains_magnitudeText {k : Nat} (hk : k ≠ infinity) :
    (Rounding.ofMagnitude k).Contains (decimalValue (magnitudeText k)) := by
  rw [magnitudeText, if_neg hk]
  split
  · next h0 =>
    -- the first interval is closed, and zero is its bottom
    subst h0
    have zero : decimalValue ['0'] = 0 := by rw [decimalValue_whole (by decide)]; rfl
    have bottom : (Rounding.ofMagnitude 0).bottom = 0 := by
      simp [Rounding.bottom, Rounding.ofMagnitude, Rounding.significand]
    have closed : (Rounding.ofMagnitude 0).closed = true := Rounding.closed_ofMagnitude 0
    rw [zero, Rounding.Contains, if_pos closed, bottom, Rounding.top]
    exact ⟨le_rfl, by positivity⟩
  · next h0 =>
    rw [decimalValue_positional]
    exact Rounding.contains_shortest (Rounding.low_lt_mid h0) (Rounding.mid_lt_high k)

theorem not_isNumeral_inf : ¬ IsNumeral ['i', 'n', 'f'] := by
  rintro ⟨⟨c, hc, digit⟩, -⟩
  cases hc
  cases digit

/-- **Different magnitudes have different texts**: no decimal is in two intervals. -/
theorem magnitudeText_inj {j k : Nat} (h : magnitudeText j = magnitudeText k) : j = k := by
  have infinite {i : Nat} (hi : magnitudeText i = ['i', 'n', 'f']) : i = infinity := by
    by_contra hne
    exact not_isNumeral_inf (hi ▸ isNumeral_magnitudeText hne)
  have inf : magnitudeText infinity = ['i', 'n', 'f'] := if_pos rfl
  by_cases hj : j = infinity
  · subst hj
    exact (infinite (h ▸ inf)).symm
  · by_cases hk : k = infinity
    · subst hk
      exact absurd (infinite (h.trans inf)) hj
    · exact Rounding.eq_of_contains (contains_magnitudeText hj) (h ▸ contains_magnitudeText hk)

theorem head_magnitudeText (k : Nat) :
    ∃ c ∈ (magnitudeText k).head?, c.isDigit = true ∨ c = 'i' := by
  by_cases hk : k = infinity
  · exact ⟨'i', by rw [magnitudeText, if_pos hk]; rfl, .inr rfl⟩
  · obtain ⟨c, hc, digit⟩ := (isNumeral_magnitudeText hk).start
    exact ⟨c, hc, .inl digit⟩

/-- No magnitude is written with a sign. -/
theorem magnitudeText_ne_minus (k : Nat) (cs : List Char) : magnitudeText k ≠ '-' :: cs := by
  intro h
  obtain ⟨c, hc, start⟩ := head_magnitudeText k
  rw [h, List.head?_cons, Option.mem_some] at hc
  subst hc
  exact absurd start (by decide)

/-- A number is its sign and its magnitude. -/
theorem eq_of_sign_of_magnitude {a b : Number} (hs : a.isNegative = b.isNegative)
    (hm : a.magnitude = b.magnitude) : a = b := by
  have ha := a.bits.toNat_lt
  have hb := b.bits.toNat_lt
  unfold isNegative at hs
  unfold magnitude at hm
  unfold signUnit at hs hm
  have bits : a.bits.toNat = b.bits.toNat := by
    have := decide_eq_decide.mp hs
    omega
  cases a
  cases b
  exact congrArg Number.mk (UInt64.toNat_inj.mp bits)

/-- **Different numbers have different texts**, if they are no NaNs. -/
theorem text_inj {a b : Number} (ha : a.isNaN = false) (hb : b.isNaN = false)
    (h : a.text = b.text) :
    a = b := by
  have texts := congrArg String.toList h
  rw [toList_text ha, toList_text hb] at texts
  cases sa : a.isNegative <;> cases sb : b.isNegative <;>
    simp only [sa, sb, if_true, if_false, Bool.false_eq_true, List.nil_append,
      List.singleton_append, List.cons.injEq, true_and] at texts
  · exact eq_of_sign_of_magnitude (sa.trans sb.symm) (magnitudeText_inj texts)
  · exact absurd texts (magnitudeText_ne_minus _ _)
  · exact absurd texts.symm (magnitudeText_ne_minus _ _)
  · exact eq_of_sign_of_magnitude (sa.trans sb.symm) (magnitudeText_inj texts)

/-- The first character of a number that is neither a NaN nor positive infinity. -/
theorem head_text {n : Number} (h : n.isNaN = false) :
    n.text = "inf" ∨ ∃ c ∈ n.text.toList.head?, c.isDigit = true ∨ c = '-' := by
  cases sign : n.isNegative with
  | true => exact .inr ⟨'-', by rw [toList_text h, sign]; rfl, .inr rfl⟩
  | false =>
    have text : n.text.toList = magnitudeText n.magnitude := by rw [toList_text h, sign]; rfl
    by_cases hk : n.magnitude = infinity
    · rw [magnitudeText, if_pos hk] at text
      exact .inl (String.toList_inj.mp text)
    · obtain ⟨c, hc, digit⟩ := (isNumeral_magnitudeText hk).start
      exact .inr ⟨c, text ▸ hc, .inl digit⟩

/-- One NaN for all of them. -/
def oneNaN (n : Number) : Number := if n.isNaN then ⟨0x7ff8000000000000⟩ else n

theorem text_of_isNaN {n : Number} (h : n.isNaN = true) : n.text = "NaN" := by
  rw [text, if_pos h]

theorem isNaN_of_text {n : Number} (h : n.text = "NaN") : n.isNaN = true := by
  by_contra hn
  rcases head_text (Bool.eq_false_iff.mpr hn) with inf | ⟨c, hc, start⟩
  · exact absurd (h.symm.trans inf) (by decide)
  · rw [h] at hc
    cases hc
    exact absurd start (by decide)

theorem text_oneNaN (n : Number) : n.oneNaN.text = n.text := by
  cases h : n.isNaN with
  | true => rw [oneNaN, if_pos h, text_of_isNaN h]; rfl
  | false => rw [oneNaN, if_neg (by simp [h])]

/-- **The text of a number says which number it is**, up to the word of a NaN. -/
theorem oneNaN_eq_of_text {a b : Number} (h : a.text = b.text) : a.oneNaN = b.oneNaN := by
  cases ha : a.isNaN with
  | true =>
    have hb := isNaN_of_text (h.symm.trans (text_of_isNaN ha))
    simp [oneNaN, ha, hb]
  | false =>
    have hb : b.isNaN = false := by
      rw [Bool.eq_false_iff]
      intro hb
      have := isNaN_of_text (h.trans (text_of_isNaN hb))
      simp [ha] at this
    rw [text_inj ha hb h]

end Number

end ExprLang
