/-
# Pieces of a drawing

A report is drawn as lines of pieces, each a text and the ink it is drawn in.  Only at the end is it
decided whether the inks are shown.
-/

namespace ExprLang.Report

/-- What a part of the drawing is for. -/
inductive Ink where
  /-- The word that opens a report. -/
  | alarm
  /-- The frame and the line numbers. -/
  | margin
  /-- The frame beside lines that have no number. -/
  | faint
  /-- Source outside the label. -/
  | source
  /-- The word before a note. -/
  | note
  /-- The label: its part of the source, its lines and arrows. -/
  | label
  deriving DecidableEq, Repr

/-- The parameter of the terminal's colour sequence. -/
def Ink.code : Ink → String
  | alarm => "31"
  | margin => "38;5;246"
  | faint => "38;5;240"
  | source => "38;5;249"
  | note => "38;5;115"
  | label => "38;5;155"

/-- Whether inks are shown. -/
inductive Palette where
  | plain
  | colored
  deriving DecidableEq, Repr

structure Piece where
  text : String
  ink : Option Ink
  deriving DecidableEq, Repr

namespace Piece

/-- A piece without ink. -/
def bare (s : String) : Piece := ⟨s, none⟩

def inked (ink : Ink) (s : String) : Piece := ⟨s, some ink⟩

def spaces (n : Nat) : Piece := bare (String.ofList (List.replicate n ' '))

/-- The text of a piece; an ink is switched on before it and off after it. -/
def render (p : Palette) (piece : Piece) : String :=
  match p, piece.ink with
  | .colored, some ink => "\x1b[" ++ ink.code ++ "m" ++ piece.text ++ "\x1b[0m"
  | _, _ => piece.text

end Piece

/-- The text of lines of pieces, each ended by a newline. -/
def renderLines (p : Palette) (drawing : List (List Piece)) : String :=
  String.join (drawing.map fun line => String.join (line.map (Piece.render p)) ++ "\n")

end ExprLang.Report
