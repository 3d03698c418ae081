/-
# Quoted text

A string is written between double quotes so that its end, its line structure and every character
in it can be seen: quotes and backslashes get a backslash, line breaks, tabs and the zero character
a letter, and a character that leaves no mark of its own is written by its code point.
-/
import ExprLang.Text.Combining
import ExprLang.Text.Unprintable

namespace ExprLang.Text

/-- Whether a character leaves a mark of its own when it is printed. -/
def isVisible (c : Char) : Bool :=
  if c.toNat < 0x7f then decide (0x20 ≤ c.toNat)
  else !(combining.contains c || ignorable.contains c || unprintable.contains c)

/-- The code point in lower-case hexadecimal digits, between braces. -/
def codePoint (c : Char) : List Char :=
  '\\' :: 'u' :: '\x7b' :: (Nat.toDigits 16 c.toNat ++ ['\x7d'])

/-- One character as it stands between the quotes. -/
def escape (c : Char) : List Char :=
  if c = '"' then ['\\', '"']
  else if c = '\\' then ['\\', '\\']
  else if c = '\n' then ['\\', 'n']
  else if c = '\r' then ['\\', 'r']
  else if c = '\t' then ['\\', 't']
  else if c = '\x00' then ['\\', '0']
  else if isVisible c then [c]
  else codePoint c

/-- The text between double quotes. -/
def quote (s : String) : String :=
  String.ofList ('"' :: (s.toList.flatMap escape ++ ['"']))

theorem toList_quote (s : String) :
    (quote s).toList = '"' :: (s.toList.flatMap escape ++ ['"']) := by
  simp [quote]

end ExprLang.Text
