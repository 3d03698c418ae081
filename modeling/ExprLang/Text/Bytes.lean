/-
# Byte offsets into text

Positions in a source are byte offsets into its UTF-8 form.  An offset is on a **boundary** when it
stands before the first byte of a character or at the end.
-/

namespace ExprLang.Text

/-- The number of bytes of a text. -/
def byteSize : List Char → Nat
  | [] => 0
  | c :: cs => c.utf8Size + byteSize cs

/-- The text from byte `n` on, if `n` is a boundary. -/
def dropBytes? : Nat → List Char → Option (List Char)
  | 0, cs => some cs
  | _ + 1, [] => none
  | n + 1, c :: cs => if c.utf8Size ≤ n + 1 then dropBytes? (n + 1 - c.utf8Size) cs else none

/-- The text before byte `n`, if `n` is a boundary. -/
def takeBytes? : Nat → List Char → Option (List Char)
  | 0, _ => some []
  | _ + 1, [] => none
  | n + 1, c :: cs =>
    if c.utf8Size ≤ n + 1 then (takeBytes? (n + 1 - c.utf8Size) cs).map (c :: ·) else none

/-- Whether byte `n` is a boundary. -/
def isBoundary (cs : List Char) (n : Nat) : Bool := (dropBytes? n cs).isSome

/-- The greatest boundary that is not above `n`. -/
def floorBoundary : List Char → Nat → Nat
  | [], _ => 0
  | c :: cs, n => if n < c.utf8Size then 0 else c.utf8Size + floorBoundary cs (n - c.utf8Size)

/-- The least boundary that is not below `n`, and the end when there is none. -/
def ceilBoundary : List Char → Nat → Nat
  | [], _ => 0
  | c :: cs, n => if n = 0 then 0 else c.utf8Size + ceilBoundary cs (n - c.utf8Size)

/-- The number of characters that start before byte `n`. -/
def charsBefore : List Char → Nat → Nat
  | [], _ => 0
  | c :: cs, n => if n = 0 then 0 else 1 + charsBefore cs (n - c.utf8Size)

/-! ## Boundaries lie where they should -/

theorem floorBoundary_le_byteSize (cs : List Char) (n : Nat) :
    floorBoundary cs n ≤ byteSize cs := by
  induction cs generalizing n with
  | nil => exact Nat.le_refl 0
  | cons c cs ih =>
    unfold floorBoundary byteSize
    split
    · exact Nat.zero_le _
    · exact Nat.add_le_add_left (ih _) _

theorem ceilBoundary_le_byteSize (cs : List Char) (n : Nat) : ceilBoundary cs n ≤ byteSize cs := by
  induction cs generalizing n with
  | nil => exact Nat.le_refl 0
  | cons c cs ih =>
    unfold ceilBoundary byteSize
    split
    · exact Nat.zero_le _
    · exact Nat.add_le_add_left (ih _) _

end ExprLang.Text
