/-
# The prefix form is unambiguous

A tree is printed with an operation in parentheses, its parts behind it.  Minus is the symbol of two
operators and the first character of a number, the unit value looks like parentheses with nothing in
them, and a string may have any of this in it.  Still **a text is the text of one tree**, up to what
is never printed: where the tree stood, and which NaN a NaN is (`Expr.printing_is_unambiguous`).

Two questions are kept apart.  *Where does a piece end?*  A tree is first a `Form`: words, quoted
strings and groups of forms in parentheses.  Words have no blank, quote or parenthesis in them, so a
form is read off the front of any text in one way only (`Form.Plain.readOnce`).  *What does a piece
say?*  Trees with one form are equal piece by piece (`Expr.same_of_form`), because a group is known
by its first word and its length, and because no name is written like a number or a truth value.
-/
import ExprLang.Proofs.Decimals
import ExprLang.Proofs.Layout
import ExprLang.Proofs.Places

namespace ExprLang

namespace Text

/-! ## 1. Quoted text -/

def hexDigit (c : Char) : Nat := if c.isDigit then c.toNat - '0'.toNat else c.toNat - 'a'.toNat + 10

/-- The value of hexadecimal digits. -/
def hexValue (cs : List Char) : Nat := cs.foldl (fun n c => 16 * n + hexDigit c) 0

/-- Hexadecimal digits are read back as their number. -/
theorem hexValue_toDigits (n : Nat) : hexValue (Nat.toDigits 16 n) = n := by
  have digit : ∀ d < 16, hexDigit d.digitChar = d := by decide
  induction n using Nat.strongRecOn with
  | ind n ih =>
    rw [Nat.toDigits_eq_if (by decide)]
    split
    · next hn => simp [hexValue, digit n hn]
    · next hn =>
      have front : hexValue (Nat.toDigits 16 (n / 16)) = n / 16 := ih _ (by omega)
      rw [hexValue, List.foldl_append, ← hexValue, front, List.foldl_cons, List.foldl_nil,
        digit _ (Nat.mod_lt _ (by decide))]
      omega

theorem brace_notMem_toDigits (n : Nat) : '\x7d' ∉ Nat.toDigits 16 n := by
  induction n using Nat.strongRecOn with
  | ind n ih =>
    rw [Nat.toDigits_eq_if (by decide)]
    split
    · simp
    · simpa using ih (n / 16) (by omega)

/-- Reads one character as it stands between quotes, and what is behind it. -/
def unescape? : List Char → Option (Char × List Char)
  | '\\' :: 'u' :: '\x7b' :: cs =>
    some (Char.ofNat (hexValue (cs.takeWhile (· != '\x7d'))), (cs.dropWhile (· != '\x7d')).tail)
  | '\\' :: d :: cs => (shortEscapes.find? (·.2 == d)).map fun p => (p.1, cs)
  | c :: cs => some (c, cs)
  | [] => none

/-- **A quoted character is read back**, whatever is behind it. -/
theorem unescape?_escape (c : Char) (r : List Char) : unescape? (escape c ++ r) = some (c, r) := by
  have h := escaped_escape c
  generalize escape c = cs at h
  cases h with
  | short hmem =>
    simp only [shortEscapes, List.mem_cons, Prod.mk.injEq, List.not_mem_nil, or_false] at hmem
    rcases hmem with ⟨rfl, rfl⟩ | ⟨rfl, rfl⟩ | ⟨rfl, rfl⟩ | ⟨rfl, rfl⟩ | ⟨rfl, rfl⟩ |
      ⟨rfl, rfl⟩ <;> rfl
  | plain hc _ =>
    have backslash : c ≠ '\\' := fun h => hc (h ▸ by decide)
    simp [unescape?, backslash]
  | coded =>
    have digits : ∀ d ∈ Nat.toDigits 16 c.toNat, (d != '\x7d') = true := fun d hd =>
      bne_iff_ne.mpr fun h => brace_notMem_toDigits c.toNat (h ▸ hd)
    simp [codePoint, unescape?, List.takeWhile_append_of_pos digits,
      List.dropWhile_append_of_pos digits, hexValue_toDigits]

/-- A character between quotes does not end the quoted text. -/
theorem escape_append_ne_quote (c : Char) (r r' : List Char) : escape c ++ r ≠ '"' :: r' := by
  have h := escaped_escape c
  generalize escape c = cs at h
  cases h with
  | short => simp
  | plain hc _ =>
    have quote : c ≠ '"' := fun h => hc (h ▸ by decide)
    simp [quote]
  | coded => simp [codePoint]

/-- A quoted text ends at the first quote that is not quoted itself. -/
theorem flatMap_escape_append_inj {cs ds r r' : List Char}
    (h : cs.flatMap escape ++ '"' :: r = ds.flatMap escape ++ '"' :: r') : cs = ds ∧ r = r' := by
  induction cs generalizing ds with
  | nil =>
    cases ds with
    | nil => simpa using h
    | cons d ds =>
      rw [List.flatMap_cons, List.append_assoc] at h
      exact absurd h.symm (escape_append_ne_quote d _ _)
  | cons c cs ih =>
    cases ds with
    | nil =>
      rw [List.flatMap_cons, List.append_assoc] at h
      exact absurd h (escape_append_ne_quote c _ _)
    | cons d ds =>
      rw [List.flatMap_cons, List.flatMap_cons, List.append_assoc, List.append_assoc] at h
      have read := congrArg unescape? h
      rw [unescape?_escape, unescape?_escape, Option.some.injEq, Prod.mk.injEq] at read
      obtain ⟨rfl, rest⟩ := read
      obtain ⟨rfl, rfl⟩ := ih rest
      exact ⟨rfl, rfl⟩

/-- **A quoted string ends at its quote**: no string imitates another one, or what is behind it. -/
theorem quote_append_inj {s t : String} {r r' : List Char}
    (h : (quote s).toList ++ r = (quote t).toList ++ r') : s = t ∧ r = r' := by
  rw [toList_quote, toList_quote] at h
  obtain ⟨chars, rest⟩ := flatMap_escape_append_inj (by simpa using h)
  exact ⟨String.toList_inj.mp chars, rest⟩

/-! ## 2. Words -/

/-- The characters that are not in words. -/
def breaks : List Char := [' ', '(', ')', '"']

/-- The text has no place where a word ends. -/
def Solid (cs : List Char) : Prop := ∀ c ∈ cs, c ∉ breaks

instance (cs : List Char) : Decidable (Solid cs) := List.decidableBAll _ cs

structure IsWord (w : String) : Prop where
  nonempty : w ≠ ""
  solid : Solid w.toList

instance (w : String) : Decidable (IsWord w) :=
  decidable_of_iff (w ≠ "" ∧ Solid w.toList) ⟨fun h => ⟨h.1, h.2⟩, fun h => ⟨h.nonempty, h.solid⟩⟩

/-- A word in front of the text ends there: no character comes, or one that is in no word. -/
def Stops (r : List Char) : Prop := ∀ c ∈ r.head?, c ∈ breaks

theorem stops_cons {c : Char} (hc : c ∈ breaks) (r : List Char) : Stops (c :: r) := by
  intro d hd
  cases hd
  exact hc

/-- A word is everything in front of the next break. -/
theorem IsWord.takeWhile_append {w : String} (hw : IsWord w) {r : List Char} (hr : Stops r) :
    (w.toList ++ r).takeWhile (fun c => decide (c ∉ breaks)) = w.toList := by
  rw [List.takeWhile_append_of_pos fun c hc => decide_eq_true (hw.solid c hc)]
  cases r with
  | nil => simp
  | cons c r => simp [hr c rfl]

/-- **A word ends where the next break is**, so words in front of breaks can be told apart. -/
theorem IsWord.append_inj {v w : String} (hv : IsWord v) (hw : IsWord w) {r r' : List Char}
    (hr : Stops r) (hr' : Stops r') (h : v.toList ++ r = w.toList ++ r') : v = w ∧ r = r' := by
  have chars : v.toList = w.toList := by rw [← hv.takeWhile_append hr, h, hw.takeWhile_append hr']
  exact ⟨String.toList_inj.mp chars, List.append_cancel_left (chars ▸ h)⟩

theorem IsWord.append {w : String} (hw : IsWord w) {v : String} (hv : Solid v.toList) :
    IsWord (w ++ v) := by
  refine ⟨fun h => hw.nonempty (String.append_eq_empty_iff.mp h).1, ?_⟩
  rw [String.toList_append]
  exact List.forall_mem_append.mpr ⟨hw.solid, hv⟩

/-- No word begins with a break. -/
theorem IsWord.append_ne {w : String} (hw : IsWord w) {c : Char} (hc : c ∈ breaks)
    (r r' : List Char) :
    w.toList ++ r ≠ c :: r' := by
  intro h
  cases chars : w.toList with
  | nil => exact hw.nonempty (String.toList_eq_nil_iff.mp chars)
  | cons d ds =>
    rw [chars, List.cons_append, List.cons.injEq] at h
    exact hw.solid d (by simp [chars]) (h.1 ▸ hc)

end Text

open Text

/-! ## 3. Forms -/

/-- What the text of a tree is made of. -/
inductive Form where
  | word (w : String)
  | quoted (s : String)
  | group (items : List Form)

namespace Form

mutual

def text : Form → List Char
  | word w => w.toList
  | quoted s => (quote s).toList
  | group items => '(' :: inside items

/-- The text of a group behind its opening parenthesis. -/
def inside : List Form → List Char
  | [] => [')']
  | [f] => f.text ++ [')']
  | f :: g :: fs => f.text ++ ' ' :: inside (g :: fs)

end

/-- The text of a group behind one of its items. -/
def behind : List Form → List Char
  | [] => [')']
  | f :: fs => ' ' :: inside (f :: fs)

theorem inside_cons (f : Form) (fs : List Form) : inside (f :: fs) = f.text ++ behind fs := by
  cases fs <;> rw [inside, behind]

/-- What the form has as words are words. -/
inductive Plain : Form → Prop where
  | word {w : String} : IsWord w → Plain (word w)
  | quoted {s : String} : Plain (quoted s)
  | group {items : List Form} : (∀ f ∈ items, Plain f) → Plain (group items)

/-- Whatever is behind an item in a group, a word ends there. -/
theorem stops_behind (fs : List Form) (r : List Char) : Stops (behind fs ++ r) := by
  cases fs with
  | nil => exact stops_cons (by decide) _
  | cons f fs => exact stops_cons (by decide) _

/-- What is behind an item says if it was the last one. -/
theorem inside_append_of_behind {fs gs : List Form} {r r' : List Char}
    (h : behind fs ++ r = behind gs ++ r') : inside fs ++ r = inside gs ++ r' := by
  cases fs with
  | nil =>
    cases gs with
    | nil => simpa only [inside, behind] using h
    | cons g gs => simp [behind] at h
  | cons f fs =>
    cases gs with
    | nil => simp [behind] at h
    | cons g gs => exact (List.cons.inj h).2

/-- No form begins like the end of a group. -/
theorem Plain.text_append_ne {f : Form} (hf : f.Plain) (r r' : List Char) :
    f.text ++ r ≠ ')' :: r' := by
  cases hf with
  | word hw => exact hw.append_ne (by decide) r r'
  | quoted => simp [text, toList_quote]
  | group => simp [text]

/-- In front of a character that is in no word, the text of the form is the text of no other form,
and of no other part of the text. -/
def ReadOnce (f : Form) : Prop :=
  ∀ {g : Form} {r r' : List Char}, g.Plain → Stops r → Stops r' → f.text ++ r = g.text ++ r' →
    f = g ∧ r = r'

/-- A group is read once if its items are. -/
theorem inside_append_inj {fs gs : List Form} {r r' : List Char} (plain : ∀ f ∈ fs, f.Plain)
    (once : ∀ f ∈ fs, f.ReadOnce) (plain' : ∀ g ∈ gs, g.Plain)
    (h : inside fs ++ r = inside gs ++ r') :
    fs = gs ∧ r = r' := by
  induction fs generalizing gs with
  | nil =>
    cases gs with
    | nil => simpa [inside] using h
    | cons g gs =>
      rw [inside, inside_cons, List.append_assoc] at h
      exact absurd h.symm ((plain' g List.mem_cons_self).text_append_ne _ _)
  | cons f fs ih =>
    obtain ⟨hf, plain⟩ := List.forall_mem_cons.mp plain
    obtain ⟨onceF, once⟩ := List.forall_mem_cons.mp once
    cases gs with
    | nil =>
      rw [inside, inside_cons, List.append_assoc] at h
      exact absurd h (hf.text_append_ne _ _)
    | cons g gs =>
      obtain ⟨hg, plain'⟩ := List.forall_mem_cons.mp plain'
      rw [inside_cons, inside_cons, List.append_assoc, List.append_assoc] at h
      obtain ⟨first, rest⟩ := onceF hg (stops_behind fs r) (stops_behind gs r') h
      obtain ⟨others, hr⟩ := ih plain once plain' (inside_append_of_behind rest)
      exact ⟨congrArg₂ List.cons first others, hr⟩

/-- **A form is read off the front of a text in one way only.** -/
theorem Plain.readOnce {f : Form} (hf : f.Plain) : f.ReadOnce := by
  intro g r r' hg hr hr' h
  induction hf generalizing g r r' with
  | word hv =>
    cases hg with
    | word hw =>
      obtain ⟨rfl, rfl⟩ := hv.append_inj hw hr hr' h
      exact ⟨rfl, rfl⟩
    | quoted =>
      -- a quote is in no word, and neither is a parenthesis
      rw [text, text, toList_quote] at h
      exact absurd h (hv.append_ne (by decide) _ _)
    | group => exact absurd h (hv.append_ne (by decide) _ _)
  | quoted =>
    cases hg with
    | word hw =>
      rw [text, text, toList_quote] at h
      exact absurd h.symm (hw.append_ne (by decide) _ _)
    | quoted =>
      obtain ⟨rfl, rfl⟩ := quote_append_inj h
      exact ⟨rfl, rfl⟩
    | group => simp [text, toList_quote] at h
  | group plain ih =>
    cases hg with
    | word hw => exact absurd h.symm (hw.append_ne (by decide) _ _)
    | quoted => simp [text, toList_quote] at h
    | group plain' =>
      obtain ⟨rfl, rfl⟩ := inside_append_inj plain ih plain' (List.cons.inj h).2
      exact ⟨rfl, rfl⟩

/-- **Two forms with one text are one form.** -/
theorem text_inj {f g : Form} (hf : f.Plain) (hg : g.Plain) (h : f.text = g.text) : f = g := by
  have stops : Stops [] := nofun
  exact (hf.readOnce hg stops stops (by rw [h])).1

end Form

/-! ## 4. Values -/

theorem notMem_breaks_of_isDigit {c : Char} (h : c.isDigit = true) : c ∉ breaks := by
  intro hb
  have none : breaks.all (fun b => !b.isDigit) = true := by decide
  simpa [h] using List.all_eq_true.mp none c hb

namespace Number

/-- A number is one word. -/
theorem isWord_text (n : Number) : IsWord n.text := by
  cases hn : n.isNaN with
  | true =>
    rw [text_of_isNaN hn]
    decide
  | false =>
    refine ⟨fun empty => ?_, ?_⟩
    · rcases head_text hn with inf | ⟨c, hc, -⟩
      · exact absurd (empty.symm.trans inf) (by decide)
      · rw [empty] at hc
        cases hc
    · rw [toList_text hn, Solid, List.forall_mem_append]
      constructor
      · have minus : Solid ['-'] := by decide
        split
        · exact minus
        · nofun
      · intro c hc
        by_cases hk : n.magnitude = infinity
        · have inf : Solid ['i', 'n', 'f'] := by decide
          rw [magnitudeText, if_pos hk] at hc
          exact inf c hc
        · rcases (isNumeral_magnitudeText hk).digits c hc with digit | rfl
          · exact notMem_breaks_of_isDigit digit
          · decide

/-- A text that begins neither with a digit nor with a minus is the text of a number in two cases
only. -/
theorem text_ne {w : String} (start : w.toList.head?.all fun c => !c.isDigit && c != '-')
    (inf : w ≠ "inf") (nan : w ≠ "NaN") (n : Number) : n.text ≠ w := by
  rintro rfl
  cases hn : n.isNaN with
  | true => exact nan (text_of_isNaN hn)
  | false =>
    rcases head_text hn with h | ⟨c, hc, h⟩
    · exact inf h
    · rw [Option.mem_def.mp hc, Option.all_some] at start
      rcases h with digit | rfl
      · simp [digit] at start
      · simp at start

end Number

namespace Value

/-- The value, with one NaN for all of them. -/
def oneNaN : Value → Value
  | number n => number n.oneNaN
  | v => v

def form : Value → Form
  | number n => .word n.text
  | bool b => .word (bool b).text
  | unit => .group []
  | str s => .quoted s

/-- The text of a value is that of its form. -/
theorem text_form (v : Value) : v.form.text = v.text.toList := by
  cases v with
  | number n => rw [form, Form.text, text]
  | bool b => rw [form, Form.text]
  | unit => rfl
  | str s => rw [form, Form.text, text]

theorem isWord_text_bool (b : Bool) : IsWord (bool b).text := by
  cases b <;> decide

theorem plain_form (v : Value) : v.form.Plain := by
  cases v with
  | number n => exact .word n.isWord_text
  | bool b => exact .word (isWord_text_bool b)
  | unit => exact .group (by simp)
  | str s => exact .quoted

/-- No number is written like a truth value. -/
theorem text_number_ne_bool (n : Number) (b : Bool) : n.text ≠ (bool b).text := by
  cases b with
  | false => exact n.text_ne (by decide) (by decide) (by decide)
  | true => exact n.text_ne (by decide) (by decide) (by decide)

theorem text_bool_inj {a b : Bool} (h : (bool a).text = (bool b).text) : a = b := by
  revert h
  cases a <;> cases b <;> decide

/-- **A value is known by its form**, but for which NaN it is. -/
theorem oneNaN_eq_of_form {v w : Value} (h : v.form = w.form) : v.oneNaN = w.oneNaN := by
  cases v with
  | number a =>
    cases w with
    | number b => exact congrArg number (Number.oneNaN_eq_of_text (Form.word.inj h))
    | bool b => exact absurd (Form.word.inj h) (text_number_ne_bool a b)
    | unit | str => cases h
  | bool a =>
    cases w with
    | number b => exact absurd (Form.word.inj h).symm (text_number_ne_bool b a)
    | bool b => rw [text_bool_inj (Form.word.inj h)]
    | unit | str => cases h
  | unit =>
    cases w with
    | unit => rfl
    | number | bool | str => cases h
  | str s =>
    cases w with
    | str t => rw [Form.quoted.inj h]
    | number | bool | unit => cases h

theorem form_ne_group (v : Value) (f : Form) (fs : List Form) : v.form ≠ .group (f :: fs) := by
  cases v <;> simp [form]

theorem text_oneNaN (v : Value) : v.oneNaN.text = v.text := by
  cases v with
  | number n => exact n.text_oneNaN
  | _ => rfl

end Value

/-! ## 5. Names, symbols and keywords -/

/-- A name as a parser delivers it: ASCII letters, digits and underscores, no digit first, and none
of the words that values are written with. -/
structure IsName (x : String) : Prop where
  nonempty : x ≠ ""
  chars : x.toList.all fun c => c.isAlphanum || c == '_'
  start : x.toList.head?.all fun c => !c.isDigit
  unreserved : x ∉ ["true", "false", "inf", "NaN"]

instance (x : String) : Decidable (IsName x) :=
  decidable_of_iff (x ≠ "" ∧ (x.toList.all fun c => c.isAlphanum || c == '_') = true ∧
      (x.toList.head?.all fun c => !c.isDigit) = true ∧ x ∉ ["true", "false", "inf", "NaN"])
    ⟨fun h => ⟨h.1, h.2.1, h.2.2.1, h.2.2.2⟩, fun h => ⟨h.nonempty, h.chars, h.start, h.unreserved⟩⟩

namespace IsName

variable {x : String}

theorem isWord (h : IsName x) : IsWord x := by
  have none : breaks.all (fun b => !(b.isAlphanum || b == '_')) = true := by decide
  refine ⟨h.nonempty, fun c hc hb => ?_⟩
  have name := List.all_eq_true.mp h.chars c hc
  simpa [name] using List.all_eq_true.mp none c hb

/-- **No name is written like a value.** -/
theorem word_ne_form (h : IsName x) (v : Value) : Form.word x ≠ v.form := by
  have words := h.unreserved
  simp only [List.mem_cons, List.not_mem_nil, or_false, not_or] at words
  obtain ⟨ne_true, ne_false, inf, nan⟩ := words
  intro heq
  match v, heq with
  | .number n, heq =>
    have start : x.toList.head?.all (fun c => !c.isDigit && c != '-') = true := by
      cases hx : x.toList with
      | nil => rfl
      | cons c cs =>
        have digit : c.isDigit = false := by simpa [hx] using h.start
        have minus : c ≠ '-' := by
          rintro rfl
          simpa [hx] using h.chars
        simp [digit, minus]
    exact n.text_ne start inf nan (Form.word.inj heq).symm
  | .bool true, heq => exact ne_true (Form.word.inj heq)
  | .bool false, heq => exact ne_false (Form.word.inj heq)

end IsName

theorem UnaryOp.isWord_symbol (op : UnaryOp) : IsWord op.symbol := by
  cases op <;> decide

theorem BinaryOp.isWord_symbol (op : BinaryOp) : IsWord op.symbol := by
  cases op <;> decide

theorem Ty.isWord_name (ty : Ty) : IsWord ty.name := by
  cases ty <;> decide

theorem UnaryOp.symbol_injective {a b : UnaryOp} (h : a.symbol = b.symbol) : a = b := by
  revert h
  cases a <;> cases b <;> decide

/-- The words that begin a group that is not an operation. -/
def keywords : List String := ["if", "fn", "let"]

theorem isWord_of_mem_keywords : ∀ w ∈ keywords, IsWord w := by
  decide

theorem UnaryOp.symbol_notMem_keywords (op : UnaryOp) : op.symbol ∉ keywords := by
  cases op <;> decide

theorem BinaryOp.symbol_notMem_keywords (op : BinaryOp) : op.symbol ∉ keywords := by
  cases op <;> decide

/-- No operation is written like a group that begins with a keyword. -/
theorem Form.group_ne {v w : String} (hv : v ∉ keywords) (hw : w ∈ keywords) (fs gs : List Form) :
    group (word v :: fs) ≠ group (word w :: gs) := by
  intro h
  simp only [group.injEq, List.cons.injEq, word.injEq] at h
  exact hv (h.1 ▸ hw)

/-! ## 6. Trees -/

namespace Expr

/-- The names in a tree: of its identifiers, its parameters and what it defines. -/
def names : Expr → List String
  | literal _ _ => []
  | ident _ x => [x]
  | unary _ _ e => e.names
  | binary _ _ l r => l.names ++ r.names
  | cond _ c t f => c.names ++ (t.names ++ f.names)
  | lambda _ params body => params ++ body.names
  | define _ x _ e => x :: e.names

/-- The tree, with one NaN for all of them. -/
def oneNaN : Expr → Expr
  | literal s v => literal s v.oneNaN
  | ident s x => ident s x
  | unary s op e => unary s op e.oneNaN
  | binary s op l r => binary s op l.oneNaN r.oneNaN
  | cond s c t f => cond s c.oneNaN t.oneNaN f.oneNaN
  | lambda s params body => lambda s params body.oneNaN
  | define s x declared e => define s x declared e.oneNaN

/-- What stands in a definition between its keyword and its value. -/
def binder (x : String) : Option Ty → List Form
  | some ty => [.word (x ++ ":"), .word ty.name]
  | none => [.word x]

/-- What stands in front of the value of a definition says its name and if it has a type. -/
theorem binder_append_inj {x y : String} {s t : Option Ty} {f g : Form}
    (h : binder x s ++ [f] = binder y t ++ [g]) : x = y ∧ s = t ∧ f = g := by
  cases s with
  | none =>
    cases t with
    | none => simpa [binder] using h
    | some ty => simp [binder] at h
  | some ty =>
    cases t with
    | none => simp [binder] at h
    | some ty' =>
      simp only [binder, List.cons_append, List.nil_append, List.cons.injEq, Form.word.injEq,
        String.append_left_inj] at h
      exact ⟨h.1, congrArg some (Ty.name_injective h.2.1), h.2.2.1⟩

theorem plain_binder {x : String} (hx : IsName x) (declared : Option Ty) :
    ∀ f ∈ binder x declared, f.Plain := by
  cases declared with
  | none =>
    rw [binder, List.forall_mem_singleton]
    exact .word hx.isWord
  | some ty =>
    rw [binder, List.forall_mem_cons, List.forall_mem_singleton]
    exact ⟨.word (hx.isWord.append (by decide)), .word ty.isWord_name⟩

def form : Expr → Form
  | literal _ v => v.form
  | ident _ x => .word x
  | unary _ op e => .group [.word op.symbol, e.form]
  | binary _ op l r => .group [.word op.symbol, l.form, r.form]
  | cond _ c t f => .group [.word "if", c.form, t.form, f.form]
  | lambda _ params body => .group [.word "fn", .group (params.map .word), body.form]
  | define _ x declared e => .group (.word "let" :: (binder x declared ++ [e.form]))

theorem inside_params (params : List String) :
    Form.inside (params.map .word) = (" ".intercalate params).toList ++ [')'] := by
  induction params with
  | nil => rfl
  | cons x params ih =>
    cases params with
    | nil => simp [Form.inside, Form.text]
    | cons y params =>
      rw [List.map_cons] at ih
      rw [List.map_cons, List.map_cons, Form.inside, ih, Form.text]
      simp

/-- **The text of a tree is that of its form.** -/
theorem text_form (e : Expr) : e.form.text = e.text.toList := by
  induction e with
  | literal s v => exact v.text_form
  | ident s x => rw [form, Form.text, text]
  | unary s op e ih => simp [form, Form.text, Form.inside, text, ih]
  | binary s op l r ihl ihr => simp [form, Form.text, Form.inside, text, ihl, ihr]
  | cond s c t f ihc iht ihf => simp [form, Form.text, Form.inside, text, ihc, iht, ihf]
  | lambda s params body ih => simp [form, Form.text, Form.inside, text, ih, inside_params]
  | define s x declared e ih =>
    cases declared with
    | none => simp [form, binder, Form.text, Form.inside, text, ih]
    | some ty => simp [form, binder, Form.text, Form.inside, text, ih]

/-- A tree is made of words if its names are names. -/
theorem plain_form {e : Expr} (h : ∀ x ∈ e.names, IsName x) : e.form.Plain := by
  have keyword {w : String} (hw : w ∈ keywords) : (Form.word w).Plain :=
    .word (isWord_of_mem_keywords w hw)
  induction e with
  | literal s v => exact v.plain_form
  | ident s x => exact .word (h x (List.mem_singleton_self x)).isWord
  | unary s op e ih =>
    have symbol : (Form.word op.symbol).Plain := .word op.isWord_symbol
    exact .group (by simp [symbol, ih h])
  | binary s op l r ihl ihr =>
    obtain ⟨hl, hr⟩ := List.forall_mem_append.mp h
    have symbol : (Form.word op.symbol).Plain := .word op.isWord_symbol
    exact .group (by simp [symbol, ihl hl, ihr hr])
  | cond s c t f ihc iht ihf =>
    obtain ⟨hc, htf⟩ := List.forall_mem_append.mp h
    obtain ⟨ht, hf⟩ := List.forall_mem_append.mp htf
    have word : (Form.word "if").Plain := keyword (by decide)
    exact .group (by simp [word, ihc hc, iht ht, ihf hf])
  | lambda s params body ih =>
    obtain ⟨hp, hb⟩ := List.forall_mem_append.mp h
    have plain : (Form.group (params.map .word)).Plain := by
      refine .group fun f hf => ?_
      obtain ⟨x, hx, rfl⟩ := List.mem_map.mp hf
      exact .word (hp x hx).isWord
    have word : (Form.word "fn").Plain := keyword (by decide)
    exact .group (by simp [word, plain, ih hb])
  | define s x declared e ih =>
    obtain ⟨hx, he⟩ := List.forall_mem_cons.mp h
    have value : ∀ f ∈ [e.form], f.Plain := by simp [ih he]
    exact .group (List.forall_mem_cons.mpr
      ⟨keyword (by decide), List.forall_mem_append.mpr ⟨plain_binder hx declared, value⟩⟩)

/-- Places are not printed. -/
theorem text_bare (e : Expr) : e.bare.text = e.text := by
  induction e with
  | literal | ident => rfl
  | unary s op e ih => rw [bare, text, text, ih]
  | binary s op l r ihl ihr => rw [bare, text, text, ihl, ihr]
  | cond s c t f ihc iht ihf => rw [bare, text, text, ihc, iht, ihf]
  | lambda s params body ih => rw [bare, text, text, ih]
  | define s x declared e ih => cases declared <;> rw [bare, text, text, ih]

theorem text_oneNaN (e : Expr) : e.oneNaN.text = e.text := by
  induction e with
  | literal s v => exact v.text_oneNaN
  | ident => rfl
  | unary s op e ih => rw [oneNaN, text, text, ih]
  | binary s op l r ihl ihr => rw [oneNaN, text, text, ihl, ihr]
  | cond s c t f ihc iht ihf => rw [oneNaN, text, text, ihc, iht, ihf]
  | lambda s params body ih => rw [oneNaN, text, text, ih]
  | define s x declared e ih => cases declared <;> rw [oneNaN, text, text, ih]

/-- Two nodes of one kind, with what is written of them the same and their parts with the same
forms. -/
inductive SameNode : Expr → Expr → Prop where
  | literal {s s' : Span} {v w : Value} : v.form = w.form → SameNode (literal s v) (literal s' w)
  | ident {s s' : Span} {x : String} : SameNode (ident s x) (ident s' x)
  | unary {s s' : Span} {op : UnaryOp} {e e' : Expr} : e.form = e'.form →
      SameNode (unary s op e) (unary s' op e')
  | binary {s s' : Span} {op : BinaryOp} {l l' r r' : Expr} : l.form = l'.form → r.form = r'.form →
      SameNode (binary s op l r) (binary s' op l' r')
  | cond {s s' : Span} {c c' t t' f f' : Expr} :
      c.form = c'.form → t.form = t'.form → f.form = f'.form →
      SameNode (cond s c t f) (cond s' c' t' f')
  | lambda {s s' : Span} {params : List String} {body body' : Expr} : body.form = body'.form →
      SameNode (lambda s params body) (lambda s' params body')
  | define {s s' : Span} {x : String} {declared : Option Ty} {e e' : Expr} : e.form = e'.form →
      SameNode (define s x declared e) (define s' x declared e')

/-- **A node is known by its form**: a group by its first word, and a minus by how many items follow
it. -/
theorem sameNode_of_form {e e' : Expr} (h : ∀ x ∈ e.names, IsName x) (h' : ∀ x ∈ e'.names, IsName x)
    (heq : e.form = e'.form) : SameNode e e' := by
  cases e with
  | literal s v =>
    cases e' with
    | literal s' w => exact .literal heq
    | ident s' x => exact absurd heq.symm ((h' x (List.mem_singleton_self x)).word_ne_form v)
    | _ => exact absurd heq (v.form_ne_group _ _)
  | ident s x =>
    cases e' with
    | literal s' w => exact absurd heq ((h x (List.mem_singleton_self x)).word_ne_form w)
    | ident s' y =>
      cases heq
      exact .ident
    | _ => cases heq
  | unary s op e =>
    cases e' with
    | literal s' w => exact absurd heq.symm (w.form_ne_group _ _)
    | unary s' op' e' =>
      simp only [form, Form.group.injEq, List.cons.injEq, Form.word.injEq, and_true] at heq
      obtain ⟨symbol, operand⟩ := heq
      cases UnaryOp.symbol_injective symbol
      exact .unary operand
    -- a minus with one operand and one with two are groups of different lengths
    | ident | binary => simp [form] at heq
    | cond | lambda | define =>
      exact absurd heq (Form.group_ne op.symbol_notMem_keywords (by decide) _ _)
  | binary s op l r =>
    cases e' with
    | literal s' w => exact absurd heq.symm (w.form_ne_group _ _)
    | binary s' op' l' r' =>
      simp only [form, Form.group.injEq, List.cons.injEq, Form.word.injEq, and_true] at heq
      obtain ⟨symbol, left, right⟩ := heq
      cases BinaryOp.symbol_injective symbol
      exact .binary left right
    | ident | unary => simp [form] at heq
    | cond | lambda | define =>
      exact absurd heq (Form.group_ne op.symbol_notMem_keywords (by decide) _ _)
  | cond s c t f =>
    cases e' with
    | literal s' w => exact absurd heq.symm (w.form_ne_group _ _)
    | cond s' c' t' f' =>
      simp only [form, Form.group.injEq, List.cons.injEq, true_and, and_true] at heq
      obtain ⟨condition, thenBranch, elseBranch⟩ := heq
      exact .cond condition thenBranch elseBranch
    | _ => simp [form] at heq
  | lambda s params body =>
    cases e' with
    | literal s' w => exact absurd heq.symm (w.form_ne_group _ _)
    | lambda s' params' body' =>
      simp only [form, Form.group.injEq, List.cons.injEq, true_and, and_true] at heq
      obtain ⟨words, body⟩ := heq
      have word_injective : Function.Injective Form.word := fun _ _ => Form.word.inj
      cases word_injective.list_map words
      exact .lambda body
    | binary s' op l r =>
      exact absurd heq.symm (Form.group_ne op.symbol_notMem_keywords (by decide) _ _)
    | _ => simp [form] at heq
  | define s x declared e =>
    cases e' with
    | literal s' w => exact absurd heq.symm (w.form_ne_group _ _)
    | define s' x' declared' e' =>
      simp only [form, Form.group.injEq, List.cons.injEq, true_and] at heq
      obtain ⟨rfl, rfl, value⟩ := binder_append_inj heq
      exact .define value
    | unary s' op e' =>
      exact absurd heq.symm (Form.group_ne op.symbol_notMem_keywords (by decide) _ _)
    | binary s' op l r =>
      exact absurd heq.symm (Form.group_ne op.symbol_notMem_keywords (by decide) _ _)
    | _ => simp [form] at heq

/-- **Trees of one form are the same tree**, node by node. -/
theorem same_of_form {e e' : Expr} (h : ∀ x ∈ e.names, IsName x) (h' : ∀ x ∈ e'.names, IsName x)
    (heq : e.form = e'.form) : e.bare.oneNaN = e'.bare.oneNaN := by
  induction e generalizing e' with
  | literal s v =>
    cases sameNode_of_form h h' heq with
    | literal value => exact congrArg (literal .zero) (Value.oneNaN_eq_of_form value)
  | ident s x =>
    cases sameNode_of_form h h' heq with
    | ident => rfl
  | unary s op e ih =>
    cases sameNode_of_form h h' heq with
    | unary operand => exact congrArg (unary .zero op) (ih h h' operand)
  | binary s op l r ihl ihr =>
    obtain ⟨hl, hr⟩ := List.forall_mem_append.mp h
    cases sameNode_of_form h h' heq with
    | binary left right =>
      obtain ⟨hl', hr'⟩ := List.forall_mem_append.mp h'
      exact congrArg₂ (binary .zero op) (ihl hl hl' left) (ihr hr hr' right)
  | cond s c t f ihc iht ihf =>
    obtain ⟨hc, htf⟩ := List.forall_mem_append.mp h
    obtain ⟨ht, hf⟩ := List.forall_mem_append.mp htf
    cases sameNode_of_form h h' heq with
    | cond condition thenBranch elseBranch =>
      obtain ⟨hc', htf'⟩ := List.forall_mem_append.mp h'
      obtain ⟨ht', hf'⟩ := List.forall_mem_append.mp htf'
      simp only [bare, oneNaN, ihc hc hc' condition, iht ht ht' thenBranch, ihf hf hf' elseBranch]
  | lambda s params body ih =>
    obtain ⟨-, hb⟩ := List.forall_mem_append.mp h
    cases sameNode_of_form h h' heq with
    | lambda forms =>
      obtain ⟨-, hb'⟩ := List.forall_mem_append.mp h'
      exact congrArg (lambda .zero params) (ih hb hb' forms)
  | define s x declared e ih =>
    obtain ⟨-, he⟩ := List.forall_mem_cons.mp h
    cases sameNode_of_form h h' heq with
    | define value =>
      obtain ⟨-, he'⟩ := List.forall_mem_cons.mp h'
      exact congrArg (define .zero x declared) (ih he he' value)

/-- **The text of a tree says which tree it is**, up to where the tree stood and which NaN a NaN is.
Strings are any text; names are what a parser delivers. -/
theorem printing_is_unambiguous {e e' : Expr} (h : ∀ x ∈ e.names, IsName x)
    (h' : ∀ x ∈ e'.names, IsName x) : e.text = e'.text ↔ e.bare.oneNaN = e'.bare.oneNaN := by
  constructor
  · intro heq
    have forms : e.form = e'.form :=
      Form.text_inj (plain_form h) (plain_form h') (by rw [text_form, text_form, heq])
    exact same_of_form h h' forms
  · intro heq
    calc e.text = e.bare.oneNaN.text := by rw [text_oneNaN, text_bare]
      _ = e'.bare.oneNaN.text := by rw [heq]
      _ = e'.text := by rw [text_oneNaN, text_bare]

/-- Two NaNs at two places, next to both kinds of minus, a group of nothing, a name that is a
keyword and a string that closes its quote. -/
theorem printing_is_unambiguous_nan :
    let tree (s : Span) (n : Number) : Expr :=
      .lambda s ["if"] (.cond s (.define s "x" (some .number) (.literal s (.number n)))
        (.binary s .sub (.unary s .neg (.ident s "if")) (.literal s .unit))
        (.literal s (.str "\") (- \"\n")))
    let e := tree ⟨0, 1⟩ ⟨0x7ff8000000000000⟩
    let e' := tree ⟨7, 3⟩ ⟨0xfff0000000000001⟩
    (∀ x ∈ e.names, IsName x) ∧ (∀ x ∈ e'.names, IsName x) ∧ e ≠ e' ∧ e.text = e'.text ∧
      e.bare.oneNaN = e'.bare.oneNaN := by
  intro tree e e'
  have named (s : Span) (n : Number) : ∀ x ∈ (tree s n).names, IsName x := by
    change ∀ x ∈ ["if", "x", "if"], IsName x
    decide
  have text (s : Span) {n : Number} (hn : n.isNaN = true) :
      (tree s n).text =
        "(fn (if) (if (let x: Number NaN) (- (- if) ()) \"\\\") (- \\\"\\n\"))" := by
    simp only [tree, Expr.text, Value.text, Number.text_of_isNaN hn]
    rfl
  have texts : e.text = e'.text := (text _ (by decide)).trans (text _ (by decide)).symm
  exact ⟨named _ _, named _ _, by decide, texts,
    (printing_is_unambiguous (named _ _) (named _ _)).mp texts⟩

end Expr

end ExprLang
