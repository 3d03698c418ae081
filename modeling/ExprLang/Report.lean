/-
# Reports

A diagnostic drawn over its source: a header, the lines of the label's ends with an arrow or an
underline to the message, and the help text as a note.  The label is the span of the diagnostic made
to fit the source.

In the compiler `CompileError.render` is `render_error_to_writer`, and `Report.draw` is what
`render_diagnostics` has drawn.
-/
import ExprLang.CompileError
import ExprLang.Report.Source
import ExprLang.Text.Pad

namespace ExprLang

namespace Report

/-! ## 1. Where the label is -/

/-- A label in its source: its first and last line, and the characters before its two ends. -/
structure Label where
  firstLine : SourceLine
  lastLine : SourceLine
  firstNumber : Nat
  lastNumber : Nat
  start : Nat
  stop : Nat
  deriving DecidableEq, Repr

namespace Label

/-- The label of a span.  An empty label is on the line of its place, any other one ends on the line
of its last character. -/
def ofSpan (source : String) (span : Span) : Label :=
  let cs := source.toList
  let fit := span.clamp source
  let start := Text.charsBefore cs fit.start
  let stop := Text.charsBefore cs fit.stop
  let ls := sourceLines cs
  let first := lineAt ls start
  let last := if start = stop then first else lineAt ls (stop - 1)
  { firstLine := ls.getD first default, lastLine := ls.getD last default,
    firstNumber := first, lastNumber := last, start, stop }

def isMultiline (l : Label) : Bool := decide (l.firstNumber < l.lastNumber)

/-- The columns that line numbers take. -/
def digits (l : Label) : Nat := (Nat.toDigits 10 (l.lastNumber + 1)).length

/-- The column of the label's start in its line. -/
def startColumn (l : Label) : Nat := l.start - l.firstLine.offset

/-- The column behind the label, if it ends on its first line. -/
def stopColumn (l : Label) : Nat := l.stop - l.firstLine.offset

/-- The column from which a line goes down to the message. -/
def middle (l : Label) : Nat := (l.start + l.stop) / 2 - l.firstLine.offset

def covers (l : Label) (col : Nat) : Bool := decide (l.startColumn ≤ col ∧ col < l.stopColumn)

end Label

/-! ## 2. Margins -/

def rule (n : Nat) : String := String.ofList (List.replicate n '─')

/-- The margin of a line of the source. -/
def numberMargin (digits number : Nat) : List Piece :=
  [.spaces 1, .inked .margin (Text.padLeft digits (toString (number + 1)) ++ " │"), .spaces 1]

/-- The margin of any other line. -/
def emptyMargin (digits : Nat) (bar : String) : List Piece :=
  [.spaces 1, .inked .faint (Text.padRight (digits + 1) "" ++ bar), .spaces 1]

/-! ## 3. A label on one line -/

/-- A column of the given width: one piece first, then the other. -/
def column (width : Nat) (first others : Piece) : List Piece :=
  if width = 0 then [] else first :: List.replicate (width - 1) others

/-- A column of the underline, `w` cells wide, with the branch to the message in the middle. -/
def underlineColumn (l : Label) (w col : Nat) : List Piece :=
  if col = l.middle then
    if l.covers col then column w (.inked .label "┬") (.inked .label "─")
    else column w (.inked .label "│") (.inked .label " ")
  else if l.covers col then column w (.inked .label "─") (.inked .label "─")
  else column w (.spaces 1) (.spaces 1)

/-- A column of the line from the branch to the message. -/
def connectorColumn (l : Label) (w col : Nat) : List Piece :=
  if col = l.middle then column w (.inked .label "╰") (.inked .label "─")
  else if l.middle < col then column w (.inked .label "─") (.inked .label "─")
  else column w (.spaces 1) (.spaces 1)

def drawInline (l : Label) (message : String) : List (List Piece) :=
  let columns := (l.firstLine.widths (l.stopColumn + 2)).zipIdx
  let underline := columns.flatMap fun (w, col) => underlineColumn l w col
  let connector := columns.flatMap fun (w, col) => connectorColumn l w col
  [numberMargin l.digits l.firstNumber ++ l.firstLine.draw l.start l.stop,
    emptyMargin l.digits "│" ++ underline,
    emptyMargin l.digits "│" ++ connector ++ [.bare (" " ++ message)]]

/-! ## 4. A label over several lines -/

def arrow (corner : String) : List Piece :=
  [.inked .label corner, .inked .label "─", .inked .label "▶", .inked .label " "]

def drawMultiline (l : Label) (message : String) : List (List Piece) :=
  let reach := (l.lastLine.widths (l.lastLine.size + 2)).foldl (· + ·) 3
  let gap :=
    if l.firstNumber + 1 < l.lastNumber then
      [emptyMargin l.digits "┆" ++ [.inked .label "┆", .spaces 3]]
    else []
  [numberMargin l.digits l.firstNumber ++ arrow "╭" ++ l.firstLine.draw l.start l.stop] ++ gap ++
    [numberMargin l.digits l.lastNumber ++ arrow "├" ++ l.lastLine.draw l.start l.stop,
      emptyMargin l.digits "│" ++ [.inked .label "│", .spaces reach],
      emptyMargin l.digits "│" ++ .inked .label "╰" :: List.replicate reach (.inked .label "─")
        ++ [.bare (" " ++ message)]]

/-! ## 5. Notes -/

/-- What stands between the margin and a note.  A label over several lines leaves room for its
arrows, and one that covers the second line from its start draws its own line there. -/
def noteMargin (l : Label) : List Piece :=
  if l.isMultiline then
    if l.firstNumber = 1 ∧ l.start = l.firstLine.offset then [.inked .label "│", .spaces 3]
    else [.spaces 4]
  else []

def drawNote (l : Label) (help : String) : List (List Piece) :=
  let margin := emptyMargin l.digits "│" ++ noteMargin l
  let line (lead : List Piece) (cs : List Char) := margin ++ lead ++ [.bare (String.ofList cs)]
  match Text.lines help.toList with
  | [] => [margin]
  | first :: others =>
    margin :: line [.inked .note "Note", .bare ": "] first :: others.map (line [.spaces 6])

/-! ## 6. The whole report -/

def header (d : Diagnostic) : List Piece :=
  let code := d.code.elim "" fun c => "[" ++ Text.padRight 2 c ++ "] "
  [.inked .alarm (code ++ "Error:"), .bare (" " ++ d.message)]

/-- The top of the frame, with the place of the label's start. -/
def frameTop (l : Label) : List (List Piece) :=
  let place :=
    " <input>:" ++ toString (l.firstNumber + 1) ++ ":" ++ toString (l.startColumn + 1) ++ " "
  let indent := Piece.spaces (l.digits + 2)
  [[indent, .inked .margin "╭", .inked .margin "─", .inked .margin "[", .bare place,
      .inked .margin "]"],
    [indent, .inked .margin "│"]]

def draw (source : String) (d : Diagnostic) : List (List Piece) :=
  let l := Label.ofSpan source d.span
  header d :: frameTop l
    ++ (if l.isMultiline then drawMultiline l d.message else drawInline l d.message)
    ++ d.help.elim [] (drawNote l)
    ++ [[.inked .margin (rule (l.digits + 2) ++ "╯")]]

end Report

/-- The text of an error for the user: a report for every diagnostic over the source.  What the code
generator finds has no place in the source and is written without a drawing. -/
def CompileError.render (palette : Report.Palette) (source : String) : CompileError → String
  | rejected ds => String.join (ds.map fun d => Report.renderLines palette (Report.draw source d))
  | code e => e.toDiagnostic.text ++ "\n"

end ExprLang
