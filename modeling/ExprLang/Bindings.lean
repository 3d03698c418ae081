/-
# Bindings

The table of the names that are bound to a value.  It is kept in the order of the names, each name
once, so that two tables with the same bindings are the same table and a listing needs no sorting.
Names are ordered by their characters, which is also the order of their UTF-8 bytes.

The compiler's name for the table is `Globals`.
-/
import ExprLang.Value

namespace ExprLang

/-- A bound value and the type it is used at. -/
structure Binding where
  ty : Ty
  value : Value
  deriving DecidableEq, Repr

structure Bindings where
  entries : List (String × Binding)
  deriving DecidableEq, Repr

namespace Bindings

def empty : Bindings := ⟨[]⟩

def size (Γ : Bindings) : Nat := Γ.entries.length

def isEmpty (Γ : Bindings) : Bool := Γ.entries.isEmpty

def find? (x : String) : List (String × Binding) → Option Binding
  | [] => none
  | (y, b) :: rest => if x = y then some b else find? x rest

/-- The binding of a name. -/
def get? (Γ : Bindings) (x : String) : Option Binding := find? x Γ.entries

def contains (Γ : Bindings) (x : String) : Bool := (Γ.get? x).isSome

/-- Puts a name into its place, over an older binding of it. -/
def insertEntry (x : String) (b : Binding) : List (String × Binding) → List (String × Binding)
  | [] => [(x, b)]
  | (y, c) :: rest =>
    if x = y then (x, b) :: rest
    else if x < y then (x, b) :: (y, c) :: rest
    else (y, c) :: insertEntry x b rest

/-- Binds a name, replacing its binding if it has one. -/
def insert (Γ : Bindings) (x : String) (b : Binding) : Bindings := ⟨insertEntry x b Γ.entries⟩

/-! ## Look-up after a change -/

@[simp]
theorem get?_empty (x : String) : empty.get? x = none := rfl

theorem find?_insertEntry (x y : String) (b : Binding) (l : List (String × Binding)) :
    find? y (insertEntry x b l) = if y = x then some b else find? y l := by
  induction l with
  | nil => simp [insertEntry, find?]
  | cons e rest ih => grind [insertEntry, find?]

/-- **Inserting binds the one name and no other.** -/
@[simp]
theorem get?_insert (Γ : Bindings) (x y : String) (b : Binding) :
    (Γ.insert x b).get? y = if y = x then some b else Γ.get? y :=
  find?_insertEntry x y b Γ.entries

end Bindings

end ExprLang
