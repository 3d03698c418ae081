/-
# Lines of a text

Two ways to cut a text into lines.  `lines` knows the newline, with or without a carriage return
before it, and drops it.  `paragraphs` knows every line break of the Unicode standard and keeps it,
so that nothing of the text is lost.
-/

namespace ExprLang.Text

/-- The lines of a text, without the newlines that end them; no line follows the last newline. -/
def lines : List Char → List (List Char)
  | [] => []
  | '\r' :: '\n' :: rest => [] :: lines rest
  | c :: rest =>
    if c = '\n' then [] :: lines rest
    else match lines rest with
      | [] => [[c]]
      | l :: ls => (c :: l) :: ls

/-- The characters that break a line on their own. -/
def isLineBreak (c : Char) : Bool :=
  [0x0a, 0x0b, 0x0c, 0x0d, 0x85, 0x2028, 0x2029].contains c.toNat

/-- The lines of a text with the breaks that end them. -/
def paragraphs : List Char → List (List Char)
  | [] => []
  | '\r' :: '\n' :: rest => ['\r', '\n'] :: paragraphs rest
  | c :: rest =>
    if isLineBreak c then [c] :: paragraphs rest
    else match paragraphs rest with
      | [] => [[c]]
      | l :: ls => (c :: l) :: ls

end ExprLang.Text
