/-
# Spans on character boundaries

A span may be out of order, end behind the source or cut a character in two.  `Span.clamp` makes it
fit, and **it moves an end only as far as it has to**: the start goes down to the greatest boundary
that is not above it, the end goes up to the least one that is not below it.

`floorBoundary` and `ceilBoundary` go from character to character and cannot fail.  The same ends
can be found by asking byte after byte, down from one offset and up from another, and then there is
something to be afraid of: a step below zero or beyond the numbers of the machine, bounds that are
out of order, and two loops with no counter.  `Span.ClampsByBytes` says what comes out when it is
done that way, and nothing does in any of these cases.  Something always does, because 0 and the
size of the source are boundaries (`clampsByBytes_iff`).

In the compiler it is done that way, in `clamp`.
-/
import ExprLang.Span
import Mathlib.Order.Bounds.Basic

namespace ExprLang.Text

/-! ## 1. Boundaries -/

theorem isBoundary_nil {n : Nat} : isBoundary [] n = true ↔ n = 0 := by
  cases n <;> simp [isBoundary, dropBytes?]

theorem isBoundary_zero (cs : List Char) : isBoundary cs 0 = true := by
  cases cs <;> rfl

/-- A boundary that is not at the start is one of the text behind the first character. -/
theorem isBoundary_cons {c : Char} {cs : List Char} {n : Nat} :
    isBoundary (c :: cs) n = true ↔
      n = 0 ∨ c.utf8Size ≤ n ∧ isBoundary cs (n - c.utf8Size) = true := by
  have hpos := c.utf8Size_pos
  cases n with
  | zero => simp [isBoundary_zero]
  | succ n =>
    by_cases h : c.utf8Size ≤ n + 1
    · simp [isBoundary, dropBytes?, h]
    · simp [isBoundary, dropBytes?, h]

theorem byteSize_take_cons (c : Char) (cs : List Char) (i : Nat) :
    byteSize ((c :: cs).take (i + 1)) = c.utf8Size + byteSize (cs.take i) := rfl

/-- Boundaries are where some of the characters end. -/
theorem isBoundary_iff_exists_take {cs : List Char} {n : Nat} :
    isBoundary cs n = true ↔ ∃ i, n = byteSize (cs.take i) := by
  induction cs generalizing n with
  | nil => simp [isBoundary_nil, byteSize]
  | cons c cs ih =>
    rw [isBoundary_cons, ih]
    constructor
    · rintro (rfl | ⟨hle, i, hi⟩)
      · exact ⟨0, rfl⟩
      · exact ⟨i + 1, by rw [byteSize_take_cons]; omega⟩
    · rintro ⟨i, hi⟩
      cases i with
      | zero => exact Or.inl hi
      | succ i =>
        rw [byteSize_take_cons] at hi
        exact Or.inr ⟨by omega, i, by omega⟩

theorem utf8ByteSize_ofList (cs : List Char) : (String.ofList cs).utf8ByteSize = byteSize cs := by
  induction cs with
  | nil => rfl
  | cons c cs ih =>
    rw [String.ofList_cons, String.utf8ByteSize_append, String.utf8ByteSize_singleton, ih, byteSize]

theorem byteSize_toList (source : String) : byteSize source.toList = source.utf8ByteSize := by
  rw [← utf8ByteSize_ofList, String.ofList_toList]

/-- **The boundaries are the valid positions of the string.** -/
theorem isBoundary_toList {source : String} {n : Nat} :
    isBoundary source.toList n = true ↔ String.Pos.Raw.IsValid source ⟨n⟩ := by
  rw [isBoundary_iff_exists_take, String.Pos.Raw.isValid_iff_exists_take_toList]
  simp only [utf8ByteSize_ofList]

/-! ## 2. The nearest boundaries -/

/-- **The start goes down to the greatest boundary that is not above it.** -/
theorem isGreatest_floorBoundary (cs : List Char) (n : Nat) :
    IsGreatest {b | isBoundary cs b = true ∧ b ≤ n} (floorBoundary cs n) := by
  induction cs generalizing n with
  | nil => exact ⟨⟨rfl, Nat.zero_le n⟩, fun b hb => Nat.le_of_eq (isBoundary_nil.mp hb.1)⟩
  | cons c cs ih =>
    obtain ⟨⟨hfloor, hle⟩, hgreatest⟩ := ih (n - c.utf8Size)
    unfold floorBoundary
    split
    · next hlt =>
      refine ⟨⟨isBoundary_zero _, Nat.zero_le n⟩, ?_⟩
      rintro b ⟨hb, hbn⟩
      rcases isBoundary_cons.mp hb with rfl | ⟨hcb, -⟩
      · exact Nat.le_refl 0
      · omega
    · next hge =>
      refine ⟨⟨isBoundary_cons.mpr (Or.inr ⟨Nat.le_add_right _ _, ?_⟩), by omega⟩, ?_⟩
      · rwa [Nat.add_sub_cancel_left]
      · rintro b ⟨hb, hbn⟩
        rcases isBoundary_cons.mp hb with rfl | ⟨hcb, hb⟩
        · exact Nat.zero_le _
        · have : b - c.utf8Size ≤ floorBoundary cs (n - c.utf8Size) := hgreatest ⟨hb, by omega⟩
          omega

/-- **The end goes up to the least boundary that is not below it.** -/
theorem isLeast_ceilBoundary {cs : List Char} {n : Nat} (hn : n ≤ byteSize cs) :
    IsLeast {b | isBoundary cs b = true ∧ n ≤ b} (ceilBoundary cs n) := by
  induction cs generalizing n with
  | nil => exact ⟨⟨rfl, hn⟩, fun b _ => Nat.zero_le b⟩
  | cons c cs ih =>
    rw [byteSize] at hn
    obtain ⟨⟨hceil, hle⟩, hleast⟩ := ih (n := n - c.utf8Size) (by omega)
    unfold ceilBoundary
    split
    · next hzero => exact ⟨⟨isBoundary_zero _, Nat.le_of_eq hzero⟩, fun b _ => Nat.zero_le b⟩
    · next hpos =>
      refine ⟨⟨isBoundary_cons.mpr (Or.inr ⟨Nat.le_add_right _ _, ?_⟩), by omega⟩, ?_⟩
      · rwa [Nat.add_sub_cancel_left]
      · rintro b ⟨hb, hnb⟩
        rcases isBoundary_cons.mp hb with rfl | ⟨hcb, hb⟩
        · omega
        · have : ceilBoundary cs (n - c.utf8Size) ≤ b - c.utf8Size := hleast ⟨hb, by omega⟩
          omega

theorem ceilBoundary_of_byteSize_le {cs : List Char} {n : Nat} (h : byteSize cs ≤ n) :
    ceilBoundary cs n = byteSize cs := by
  induction cs generalizing n with
  | nil => rfl
  | cons c cs ih =>
    have hpos := c.utf8Size_pos
    unfold byteSize at h
    unfold ceilBoundary byteSize
    rw [if_neg (by omega), ih (by omega)]

/-! ## 3. Byte after byte -/

/-- `Walks done step n m`: from `n` on, going from offset to offset, `m` is the first that will do.
There is none if a step fails before, and none if there is no end to it. -/
inductive Walks (done : Nat → Bool) (step : Nat → Option Nat) : Nat → Nat → Prop where
  | stop {n : Nat} : done n = true → Walks done step n n
  | next {n k m : Nat} : ¬ done n = true → step n = some k → Walks done step k m →
      Walks done step n m

/-- One byte down; there is none below the first. -/
def down? : Nat → Option Nat
  | 0 => none
  | n + 1 => some n

/-- One byte up, if there is a number for it. -/
def up? (limit n : Nat) : Option Nat := if n < limit then some (n + 1) else none

/-- The nearest number between two bounds, which must be in order. -/
def restrict? (n low high : Nat) : Option Nat :=
  if low ≤ high then some (max low (min n high)) else none

section Walks

variable {done : Nat → Bool} {step : Nat → Option Nat} {n m m' : Nat}

/-- There is no choice in a walk. -/
theorem Walks.unique (h : Walks done step n m) (h' : Walks done step n m') : m = m' := by
  induction h with
  | stop hdone =>
    cases h' with
    | stop => rfl
    | next hnot => exact absurd hdone hnot
  | next hnot hstep _ ih =>
    cases h' with
    | stop hdone => exact absurd hdone hnot
    | next _ hstep' hrest =>
      obtain rfl := Option.some.inj (hstep.symm.trans hstep')
      exact ih hrest

/-- **A walk down ends at the greatest offset that will do**, if there is one. -/
theorem walks_down (h : IsGreatest {b | done b = true ∧ b ≤ n} m) : Walks done down? n m := by
  obtain ⟨⟨hm, hle⟩, hgreatest⟩ := h
  induction n, hle using Nat.le_induction with
  | base => exact .stop hm
  | succ n hle ih =>
    have passed : ¬ done (n + 1) = true := by
      intro hdone
      have : n + 1 ≤ m := hgreatest ⟨hdone, Nat.le_refl _⟩
      omega
    refine .next passed rfl (ih ?_)
    rintro b ⟨hb, hbn⟩
    exact hgreatest ⟨hb, by omega⟩

/-- **A walk up ends at the least offset that will do**, if there is one and a number for it. -/
theorem walks_up {limit : Nat} (h : IsLeast {b | done b = true ∧ n ≤ b} m) (hlimit : m ≤ limit) :
    Walks done (up? limit) n m := by
  obtain ⟨⟨hm, hle⟩, hleast⟩ := h
  induction hle using Nat.decreasingInduction with
  | self => exact .stop hm
  | of_succ n hlt ih =>
    have passed : ¬ done n = true := by
      intro hdone
      have : m ≤ n := hleast ⟨hdone, Nat.le_refl _⟩
      omega
    refine .next passed (if_pos (by omega)) (ih ?_)
    rintro b ⟨hb, hnb⟩
    exact hleast ⟨hb, by omega⟩

end Walks

end ExprLang.Text

namespace ExprLang.Span

open Text

/-- `s.ClampsByBytes limit source r`: made to fit the source by asking every offset whether it is a
boundary, `s` becomes `r`.  It becomes nothing if an offset gets below zero or above the limit, if
the bounds for the end are out of order, or if a loop has no end. -/
structure ClampsByBytes (limit : Nat) (source : String) (s r : Span) : Prop where
  start : Walks (fun n => String.Pos.Raw.isValid source ⟨n⟩) down?
    (min s.start source.utf8ByteSize) r.start
  stop : ∃ stop, restrict? s.stop r.start source.utf8ByteSize = some stop ∧
    Walks (fun n => String.Pos.Raw.isValid source ⟨n⟩) (up? limit) stop r.stop

/-- Nothing is left to choose when a span is made to fit. -/
theorem ClampsByBytes.unique {limit : Nat} {source : String} {s r r' : Span}
    (h : s.ClampsByBytes limit source r) (h' : s.ClampsByBytes limit source r') : r = r' := by
  obtain ⟨start, stop⟩ := r
  obtain ⟨start', stop'⟩ := r'
  obtain rfl : start = start' := h.start.unique h'.start
  obtain ⟨m, hm, up⟩ := h.stop
  obtain ⟨m', hm', up'⟩ := h'.stop
  obtain rfl := Option.some.inj (hm.symm.trans hm')
  obtain rfl : stop = stop' := up.unique up'
  rfl

variable (s : Span) (source : String)

/-! ## 4. Spans that fit -/

theorem start_clamp_le : (s.clamp source).start ≤ source.utf8ByteSize := by
  rw [← byteSize_toList]
  exact floorBoundary_le_byteSize source.toList s.start

theorem stop_clamp_le : (s.clamp source).stop ≤ source.utf8ByteSize := by
  rw [← byteSize_toList]
  exact ceilBoundary_le_byteSize source.toList _

theorem isGreatest_start_clamp :
    IsGreatest {b | String.Pos.Raw.IsValid source ⟨b⟩ ∧ b ≤ min s.start source.utf8ByteSize}
      (s.clamp source).start := by
  obtain ⟨⟨hfloor, hle⟩, hgreatest⟩ := isGreatest_floorBoundary source.toList s.start
  refine ⟨⟨isBoundary_toList.mp hfloor, Nat.le_min.mpr ⟨hle, s.start_clamp_le source⟩⟩, ?_⟩
  rintro b ⟨hb, hbn⟩
  exact hgreatest ⟨isBoundary_toList.mpr hb, (Nat.le_min.mp hbn).1⟩

/-- The end goes up from where it is between the new start and the end of the source. -/
theorem stop_clamp_eq : (s.clamp source).stop =
    ceilBoundary source.toList (max (s.clamp source).start (min s.stop source.utf8ByteSize)) := by
  have hstart := s.start_clamp_le source
  rw [← byteSize_toList] at hstart ⊢
  show ceilBoundary source.toList (max s.stop (s.clamp source).start) = _
  rcases Nat.le_total s.stop (byteSize source.toList) with hle | hge
  · rw [Nat.min_eq_left hle, Nat.max_comm]
  · rw [Nat.min_eq_right hge, Nat.max_eq_right hstart, ceilBoundary_of_byteSize_le (by omega),
      ceilBoundary_of_byteSize_le (Nat.le_refl _)]

theorem isLeast_stop_clamp :
    IsLeast {b | String.Pos.Raw.IsValid source ⟨b⟩ ∧
        max (s.clamp source).start (min s.stop source.utf8ByteSize) ≤ b} (s.clamp source).stop := by
  have inside :
      max (s.clamp source).start (min s.stop source.utf8ByteSize) ≤ byteSize source.toList := by
    rw [byteSize_toList]
    exact Nat.max_le.mpr ⟨s.start_clamp_le source, Nat.min_le_right _ _⟩
  obtain ⟨⟨hceil, hle⟩, hleast⟩ := isLeast_ceilBoundary inside
  rw [stop_clamp_eq]
  refine ⟨⟨isBoundary_toList.mp hceil, hle⟩, ?_⟩
  rintro b ⟨hb, hnb⟩
  exact hleast ⟨isBoundary_toList.mpr hb, hnb⟩

theorem start_le_stop_clamp : (s.clamp source).start ≤ (s.clamp source).stop :=
  (Nat.max_le.mp (s.isLeast_stop_clamp source).1.2).1

/-- **Going byte after byte gives the same span**: it never fails and always ends. -/
theorem clampsByBytes_iff {limit : Nat} (h : source.utf8ByteSize ≤ limit) (r : Span) :
    s.ClampsByBytes limit source r ↔ r = s.clamp source := by
  have clamps : s.ClampsByBytes limit source (s.clamp source) := by
    refine ⟨walks_down ?_, _, if_pos (s.start_clamp_le source), walks_up ?_ ?_⟩
    · simpa only [String.Pos.Raw.isValid_eq_true_iff] using s.isGreatest_start_clamp source
    · simpa only [String.Pos.Raw.isValid_eq_true_iff] using s.isLeast_stop_clamp source
    · exact Nat.le_trans (s.stop_clamp_le source) h
  constructor
  · exact fun hr => hr.unique clamps
  · rintro rfl
    exact clamps

/-- A span that fits stays as it is. -/
theorem clamp_of_fits {s : Span} {source : String} (hle : s.start ≤ s.stop)
    (hsize : s.stop ≤ source.utf8ByteSize) (hstart : String.Pos.Raw.IsValid source ⟨s.start⟩)
    (hstop : String.Pos.Raw.IsValid source ⟨s.stop⟩) : s.clamp source = s := by
  have start : (s.clamp source).start = s.start :=
    (s.isGreatest_start_clamp source).unique
      ⟨⟨hstart, Nat.le_min.mpr ⟨Nat.le_refl _, Nat.le_trans hle hsize⟩⟩,
        fun b hb => (Nat.le_min.mp hb.2).1⟩
  have least := s.isLeast_stop_clamp source
  rw [start, Nat.min_eq_left hsize, Nat.max_eq_right hle] at least
  have stop : (s.clamp source).stop = s.stop :=
    least.unique ⟨⟨hstop, Nat.le_refl _⟩, fun b hb => hb.2⟩
  show (⟨(s.clamp source).start, (s.clamp source).stop⟩ : Span) = ⟨s.start, s.stop⟩
  rw [start, stop]

/-- **A span is made to fit safely and by as little as possible.**  Byte after byte this is done
without a step below zero or above a number of the machine, without bounds out of order and in
finitely many steps, on every machine that has a number for the size of the source.  The result is
in order, inside the source and on boundaries: from the greatest one that is not above the start to
the least one that is not below the end, as far as the end is between the new start and the end of
the source.  So no byte of the source that the span covers is lost, a span that fits is kept, and
doing it again changes nothing. -/
theorem clamp_is_safe_and_minimal (s : Span) (source : String) :
    let r := s.clamp source
    let size := source.utf8ByteSize
    (∀ limit, size ≤ limit → ∀ r', s.ClampsByBytes limit source r' ↔ r' = r) ∧
      r.start ≤ r.stop ∧ r.stop ≤ size ∧
      IsGreatest {b | String.Pos.Raw.IsValid source ⟨b⟩ ∧ b ≤ min s.start size} r.start ∧
      IsLeast {b | String.Pos.Raw.IsValid source ⟨b⟩ ∧ max r.start (min s.stop size) ≤ b} r.stop ∧
      (∀ i, i < size → s.start ≤ i → i < s.stop → r.start ≤ i ∧ i < r.stop) ∧
      (s.start ≤ s.stop → s.stop ≤ size → String.Pos.Raw.IsValid source ⟨s.start⟩ →
        String.Pos.Raw.IsValid source ⟨s.stop⟩ → r = s) ∧
      r.clamp source = r := by
  intro r size
  have greatest := s.isGreatest_start_clamp source
  have least := s.isLeast_stop_clamp source
  have ordered := s.start_le_stop_clamp source
  have inside := s.stop_clamp_le source
  refine ⟨fun limit => s.clampsByBytes_iff source, ordered, inside, greatest, least, ?_,
    clamp_of_fits, clamp_of_fits ordered inside greatest.1.1 least.1.1⟩
  intro i hi hstart hstop
  constructor
  · exact Nat.le_trans (Nat.le_min.mp greatest.1.2).1 hstart
  · have := (Nat.max_le.mp least.1.2).2
    exact Nat.lt_of_lt_of_le (Nat.lt_min.mpr ⟨hstop, hi⟩) this

/-- In `aéb` a span that begins inside `é` and ends far behind the source, on a machine with 64-bit
numbers; the bytes 2 and 3 are those that it covers.  The span that comes out fits. -/
theorem clamp_is_safe_and_minimal_multibyte :
    let s : Span := ⟨2, UInt64.size - 1⟩
    let r : Span := ⟨1, 4⟩
    s.ClampsByBytes (UInt64.size - 1) "aéb" r ∧ (r.start ≤ 3 ∧ 3 < r.stop) ∧ r.clamp "aéb" = r := by
  intro s r
  have clamped : s.clamp "aéb" = r := by decide
  have valid : ∀ b ∈ [1, 4], String.Pos.Raw.IsValid "aéb" ⟨b⟩ := by
    simp only [← String.Pos.Raw.isValid_eq_true_iff]
    decide
  obtain ⟨safe, -, -, -, -, covers, -⟩ := clamp_is_safe_and_minimal s "aéb"
  obtain ⟨-, -, -, -, -, -, kept, -⟩ := clamp_is_safe_and_minimal r "aéb"
  rw [clamped] at safe covers
  exact ⟨(safe _ (by decide) r).mpr rfl, covers 3 (by decide) (by decide) (by decide),
    kept (by decide) (by decide) (valid 1 (by decide)) (valid 4 (by decide))⟩

end ExprLang.Span
