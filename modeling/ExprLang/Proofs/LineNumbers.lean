/-
# Line numbers

A `LineMap` is made from the characters of a source and asked for byte offsets.  **The line of an
offset is one more than the number of newline bytes before it.**  That is true of every offset: of
one inside a character, because no byte of a longer character is a newline, and of one behind the
end.

The line starts ascend, so they can be searched by halving.  A search ends in one of two ways, with
the index of the offset or with the index where it would have to be inserted, and only in the first
case one is to be added.  What makes both right is one invariant: in front of the part that is still
searched no start is above the offset, and behind it all of them are (`Brackets`).

In the compiler `line_of` searches by halving.
-/
import ExprLang.LineMap

namespace ExprLang

/-! ## 1. Newlines in the bytes of a source -/

/-- The bytes of a source. -/
def sourceBytes (source : String) : List UInt8 := source.toUTF8.data.toList

/-- The number of newline bytes in front of an offset. -/
def newlinesBefore (source : String) (offset : Nat) : Nat :=
  ((sourceBytes source).take offset).count 0x0a

theorem sourceBytes_eq_flatMap (source : String) :
    sourceBytes source = source.toList.flatMap String.utf8EncodeChar := by
  rw [sourceBytes, String.toUTF8, ← String.utf8Encode_toList, List.utf8Encode,
    List.toList_data_toByteArray]

theorem newlinesBefore_mono (source : String) {a b : Nat} (h : a ≤ b) :
    newlinesBefore source a ≤ newlinesBefore source b :=
  (List.take_sublist_take_left h).count_le 0x0a

theorem newlinesBefore_le (source : String) (offset : Nat) :
    newlinesBefore source offset ≤ (sourceBytes source).count 0x0a :=
  (List.take_sublist offset _).count_le 0x0a

/-- The bytes of a character that has more than one are all high. -/
theorem lt_of_mem_utf8EncodeChar {c : Char} {b : UInt8} (hc : 127 < c.val.toNat) :
    b ∈ String.utf8EncodeChar c → 127 < b.toNat := by
  fun_cases String.utf8EncodeChar c with
  | case1 v hv => omega
  | case2 v _ _ | case3 v _ _ _ | case4 v _ _ _ =>
    intro hb
    simp only [List.mem_cons, List.not_mem_nil, or_false] at hb
    rcases hb with rfl | rfl | rfl | rfl
    all_goals
      rw [UInt8.toNat_ofNat']
      omega

/-- **Only the newline has a newline byte.** -/
theorem eq_newline_of_mem {c : Char} (h : (0x0a : UInt8) ∈ String.utf8EncodeChar c) : c = '\n' := by
  by_cases hc : 127 < c.val.toNat
  · exact absurd (lt_of_mem_utf8EncodeChar hc h) (by decide)
  · have short : c.utf8Size = 1 :=
      Char.utf8Size_eq_one_iff.mpr (UInt32.le_iff_toNat_le.mpr (Nat.le_of_not_lt hc))
    rw [String.utf8EncodeChar_eq_singleton short, List.mem_singleton] at h
    have code : 10 = c.val.toNat % 256 := congrArg UInt8.toNat h
    exact Char.toNat_inj.mp (show c.val.toNat = 10 by omega)

theorem count_take_utf8EncodeChar (c : Char) (n : Nat) :
    ((String.utf8EncodeChar c).take n).count 0x0a = if c = '\n' ∧ 0 < n then 1 else 0 := by
  split
  · next h =>
    obtain ⟨rfl, hn⟩ := h
    have encoded : String.utf8EncodeChar '\n' = [0x0a] := by decide
    rw [encoded, List.take_of_length_le hn, List.count_singleton_self]
  · next h =>
    refine List.count_eq_zero.mpr fun hmem => h ?_
    cases n with
    | zero => exact absurd hmem (by simp)
    | succ n => exact ⟨eq_newline_of_mem (List.mem_of_mem_take hmem), Nat.succ_pos n⟩

theorem count_utf8EncodeChar (c : Char) :
    (String.utf8EncodeChar c).count 0x0a = if c = '\n' then 1 else 0 := by
  have all := count_take_utf8EncodeChar c c.utf8Size
  rw [← String.length_utf8EncodeChar, List.take_length] at all
  simp [all, Char.utf8Size_pos]

/-! ## 2. The line starts -/

namespace LineMap

theorem lt_of_mem_startsAfter {cs : List Char} {offset s : Nat} (h : s ∈ startsAfter offset cs) :
    offset < s := by
  fun_induction startsAfter offset cs with
  | case1 => cases h
  | case2 offset cs next ih =>
    have hpos : 0 < '\n'.utf8Size := Char.utf8Size_pos _
    rcases List.mem_cons.mp h with rfl | h
    · omega
    · have := ih h
      omega
  | case3 offset c cs next _ ih =>
    have := ih h
    omega

/-- **Line starts ascend.** -/
theorem pairwise_startsAfter (offset : Nat) (cs : List Char) :
    (startsAfter offset cs).Pairwise (· < ·) := by
  fun_induction startsAfter offset cs with
  | case1 => exact .nil
  | case2 offset cs next ih => exact .cons (fun _ hs => lt_of_mem_startsAfter hs) ih
  | case3 offset c cs next _ ih => exact ih

theorem pairwise_starts (source : String) : (ofSource source).starts.Pairwise (· < ·) :=
  .cons (fun _ hs => lt_of_mem_startsAfter hs) (pairwise_startsAfter 0 source.toList)

/-- **The starts up to an offset are as many as the newline bytes before it.** -/
theorem countP_startsAfter (cs : List Char) (o n : Nat) :
    (startsAfter o cs).countP (· ≤ o + n) =
      ((cs.flatMap String.utf8EncodeChar).take n).count 0x0a := by
  induction cs generalizing o n with
  | nil => simp [startsAfter]
  | cons c cs ih =>
    have later : (startsAfter (o + c.utf8Size) cs).countP (· ≤ o + n) =
        ((cs.flatMap String.utf8EncodeChar).take (n - c.utf8Size)).count 0x0a := by
      rcases Nat.lt_or_ge n c.utf8Size with inside | behind
      · have none : ∀ s ∈ startsAfter (o + c.utf8Size) cs, ¬ s ≤ o + n := fun s hs => by
          have := lt_of_mem_startsAfter hs
          omega
        rw [Nat.sub_eq_zero_of_le (Nat.le_of_lt inside), List.take_zero, List.count_nil]
        simpa using none
      · rw [← ih (o + c.utf8Size), Nat.add_assoc, Nat.add_sub_cancel' behind]
    rw [List.flatMap_cons, List.take_append, List.count_append, String.length_utf8EncodeChar,
      ← later, count_take_utf8EncodeChar, startsAfter]
    by_cases hc : c = '\n'
    · subst hc
      have size : '\n'.utf8Size = 1 := by decide
      simp only [List.countP_cons, size, if_true, true_and, decide_eq_true_eq,
        Nat.add_le_add_iff_left, Nat.one_le_iff_ne_zero, Nat.pos_iff_ne_zero, Nat.add_comm]
    · simp [hc]

theorem countP_starts (source : String) (offset : Nat) :
    (ofSource source).starts.countP (· ≤ offset) = 1 + newlinesBefore source offset := by
  have later := countP_startsAfter source.toList 0 offset
  rw [Nat.zero_add] at later
  rw [ofSource, List.countP_cons, later, newlinesBefore, sourceBytes_eq_flatMap]
  simp [Nat.add_comm]

theorem length_startsAfter (cs : List Char) (o : Nat) :
    (startsAfter o cs).length = (cs.flatMap String.utf8EncodeChar).count 0x0a := by
  fun_induction startsAfter o cs with
  | case1 => rfl
  | case2 o cs next ih =>
    rw [List.flatMap_cons, List.count_append, count_utf8EncodeChar, List.length_cons, ih,
      if_pos rfl, Nat.add_comm]
  | case3 o c cs next hc ih =>
    rw [List.flatMap_cons, List.count_append, count_utf8EncodeChar, ih, if_neg hc, Nat.zero_add]

theorem count_ofSource (source : String) :
    (ofSource source).count = 1 + (sourceBytes source).count 0x0a := by
  rw [count, ofSource, List.length_cons, length_startsAfter, sourceBytes_eq_flatMap, Nat.add_comm]

end LineMap

/-! ## 3. Searching by halving -/

/-- Where a number is in an ascending list, or where it would have to be inserted. -/
inductive Place where
  | found (index : Nat)
  | missing (index : Nat)
  deriving DecidableEq, Repr

/-- Halves the part of a list that begins at `base` and has `size` entries, until one entry is
left. -/
def narrow (key : Nat) (xs : List Nat) (base size : Nat) (h : base + size ≤ xs.length) : Nat :=
  if hsize : size ≤ 1 then base
  else
    let half := size / 2
    have : base + half < xs.length := by omega
    if key < xs[base + half] then narrow key xs base (size - half) (by omega)
    else narrow key xs (base + half) (size - half) (by omega)
termination_by size

theorem narrow_lt (key : Nat) (xs : List Nat) (base size : Nat) (h : base + size ≤ xs.length)
    (hpos : 0 < size) : narrow key xs base size h < xs.length := by
  fun_induction narrow key xs base size h with
  | case1 base size h hsize => omega
  | case2 base size h hsize half _ _ ih => exact ih (by omega)
  | case3 base size h hsize half _ _ ih => exact ih (by omega)

/-- Where the key is if it is the entry at an index, or right before or behind that entry if it is
not. -/
def compareAt (key : Nat) (xs : List Nat) (i : Nat) (h : i < xs.length) : Place :=
  if xs[i] = key then .found i else if xs[i] < key then .missing (i + 1) else .missing i

/-- The place of a key in an ascending list: it is compared once more with the entry that is
left. -/
def search (key : Nat) (xs : List Nat) : Place :=
  if hpos : 0 < xs.length then
    compareAt key xs (narrow key xs 0 xs.length (by omega)) (narrow_lt key xs 0 xs.length _ hpos)
  else .missing 0

/-- The number of the entries up to the key. -/
def Place.upTo : Place → Nat
  | .found i => i + 1
  | .missing i => i

/-- `Brackets key xs lo hi`: no entry in front of `lo` is above the key, and every entry from `hi`
on is. -/
structure Brackets (key : Nat) (xs : List Nat) (lo hi : Nat) : Prop where
  below : ∀ i (h : i < xs.length), i < lo → xs[i] ≤ key
  above : ∀ i (h : i < xs.length), hi ≤ i → key < xs[i]

section Search

variable {key : Nat} {xs : List Nat}

theorem Brackets.whole (key : Nat) (xs : List Nat) : Brackets key xs 0 (0 + xs.length) where
  below i h hi := absurd hi (Nat.not_lt_zero i)
  above i h hi := by omega

/-- **Halving keeps the brackets**: what is cut off lies on the right side of the entry in the
middle. -/
theorem narrow_brackets (hxs : xs.Pairwise (· < ·)) {base size : Nat} (h : base + size ≤ xs.length)
    (hpos : 0 < size) (hb : Brackets key xs base (base + size)) :
    Brackets key xs (narrow key xs base size h) (narrow key xs base size h + 1) := by
  have ascends := List.pairwise_iff_getElem.mp hxs
  fun_induction narrow key xs base size h with
  | case1 base size h hsize =>
    have one : size = 1 := by omega
    subst one
    exact hb
  | case2 base size h hsize half hmid hlt ih =>
    refine ih (by omega) ⟨hb.below, fun i hi hle => ?_⟩
    rcases Nat.eq_or_lt_of_le (show base + half ≤ i by omega) with rfl | hgt
    · exact hlt
    · exact Nat.lt_trans hlt (ascends _ _ hmid hi hgt)
  | case3 base size h hsize half hmid hge ih =>
    refine ih (by omega) ⟨fun i hi hlt => ?_, fun i hi hle => hb.above i hi (by omega)⟩
    exact Nat.le_of_lt (Nat.lt_of_lt_of_le (ascends _ _ hi hmid hlt) (Nat.le_of_not_lt hge))

/-- Brackets that meet stand behind the entries that are not above the key. -/
theorem Brackets.countP {n : Nat} (h : Brackets key xs n n) (hn : n ≤ xs.length) :
    xs.countP (· ≤ key) = n := by
  have front : (xs.take n).countP (· ≤ key) = n := by
    rw [List.countP_eq_length.mpr, List.length_take, Nat.min_eq_left hn]
    intro x hx
    obtain ⟨i, hi, rfl⟩ := List.mem_take_iff_getElem.mp hx
    exact decide_eq_true (h.below i (by omega) (by omega))
  have back : (xs.drop n).countP (· ≤ key) = 0 := by
    rw [List.countP_eq_zero]
    intro x hx
    obtain ⟨i, hi, rfl⟩ := List.mem_drop_iff_getElem.mp hx
    have := h.above (n + i) (by omega) (by omega)
    simpa using this
  rw [← List.take_append_drop n xs, List.countP_append, front, back, Nat.add_zero]

theorem Brackets.upTo_compareAt {i : Nat} (h : Brackets key xs i (i + 1)) (hi : i < xs.length) :
    (compareAt key xs i hi).upTo = xs.countP (· ≤ key) := by
  have counted (hle : xs[i] ≤ key) : xs.countP (· ≤ key) = i + 1 := by
    refine Brackets.countP ⟨fun j hj hlt => ?_, h.above⟩ hi
    rcases Nat.eq_or_lt_of_le (Nat.le_of_lt_succ hlt) with rfl | hlt
    · exact hle
    · exact h.below j hj hlt
  rw [compareAt]
  split
  · next heq => exact (counted (Nat.le_of_eq heq)).symm
  · next hne =>
    split
    · next hlt => exact (counted (Nat.le_of_lt hlt)).symm
    · next hge =>
      refine (Brackets.countP ⟨h.below, fun j hj hle => ?_⟩ (Nat.le_of_lt hi)).symm
      rcases Nat.eq_or_lt_of_le hle with rfl | hlt
      · omega
      · exact h.above j hj hlt

/-- **A search in an ascending list tells how many entries are not above the key**, whether it finds
the key or not. -/
theorem upTo_search (hxs : xs.Pairwise (· < ·)) (key : Nat) :
    (search key xs).upTo = xs.countP (· ≤ key) := by
  rw [search]
  split
  · next hpos =>
    have brackets := narrow_brackets hxs (by omega) hpos (.whole key xs)
    exact brackets.upTo_compareAt _
  · next hempty =>
    have nil : xs = [] := List.length_eq_zero_iff.mp (Nat.eq_zero_of_not_pos hempty)
    rw [nil]
    rfl

end Search

/-! ## 4. Lines -/

namespace LineMap

/-- The line of an offset, found by searching the starts. -/
def searchLine (m : LineMap) (offset : Nat) : UInt32 :=
  if m.starts.isEmpty then 0 else (search offset m.starts).upTo.toUInt32

theorem searchLine_eq_lineOf {m : LineMap} (h : m.starts.Pairwise (· < ·)) (offset : Nat) :
    m.searchLine offset = m.lineOf offset := by
  rw [searchLine, lineOf, upTo_search h]
  split
  · next hempty =>
    rw [List.isEmpty_iff.mp hempty]
    rfl
  · rfl

theorem toNat_lineOf (source : String) (offset : Nat) :
    ((ofSource source).lineOf offset).toNat = (1 + newlinesBefore source offset) % UInt32.size := by
  rw [lineOf, countP_starts]
  rfl

/-- **The line of an offset is one more than the number of newline bytes before it**, as a 32-bit
word, wherever the offset is, and a search by halving finds it.  So a later offset is never on an
earlier line, as long as the number of its line fits, and no line is above the number of the lines,
which is one more than the number of the newlines. -/
theorem lineOf_counts_newlines (source : String) (offset : Nat) :
    ((ofSource source).lineOf offset).toNat = (1 + newlinesBefore source offset) % UInt32.size ∧
      (ofSource source).searchLine offset = (ofSource source).lineOf offset ∧
      (∀ later, offset ≤ later → 1 + newlinesBefore source later < UInt32.size →
        (ofSource source).lineOf offset ≤ (ofSource source).lineOf later) ∧
      ((ofSource source).lineOf offset).toNat ≤ (ofSource source).count ∧
      (ofSource source).count = 1 + (sourceBytes source).count 0x0a := by
  refine ⟨toNat_lineOf source offset, searchLine_eq_lineOf (pairwise_starts source) offset, ?_, ?_,
    count_ofSource source⟩
  · intro later hle fits
    have mono := newlinesBefore_mono source hle
    rw [UInt32.le_iff_toNat_le, toNat_lineOf, toNat_lineOf, Nat.mod_eq_of_lt fits,
      Nat.mod_eq_of_lt (by omega)]
    omega
  · have := newlinesBefore_le source offset
    calc ((ofSource source).lineOf offset).toNat
      _ = (1 + newlinesBefore source offset) % UInt32.size := toNat_lineOf source offset
      _ ≤ 1 + newlinesBefore source offset := Nat.mod_le _ _
      _ ≤ 1 + (sourceBytes source).count 0x0a := Nat.add_le_add_left this 1
      _ = (ofSource source).count := (count_ofSource source).symm

/-- In `é`, two newlines and `x`, the offset 1 is inside the first character and 99 is behind the
end. -/
theorem lineOf_counts_newlines_multibyte :
    let source := "é\n\nx"
    let m := ofSource source
    newlinesBefore source 1 = 0 ∧ newlinesBefore source 99 = 2 ∧ (m.lineOf 1).toNat = 1 ∧
      m.searchLine 1 = m.lineOf 1 ∧ m.lineOf 1 ≤ m.lineOf 99 ∧ m.count = 3 := by
  intro source m
  have first : newlinesBefore source 1 = 0 := by decide
  have last : newlinesBefore source 99 = 2 := by decide
  obtain ⟨line, searched, mono, -, count⟩ := lineOf_counts_newlines source 1
  rw [first] at line
  exact ⟨first, last, line, searched, mono 99 (by decide) (by rw [last]; decide), count⟩

end LineMap

end ExprLang
