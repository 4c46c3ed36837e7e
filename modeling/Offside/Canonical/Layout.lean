import Offside.Source.Spelling

/-!
# Layout of canonical source

Canonical source is a sequence of pieces: terminals, spaces, line ends and changes of the level of
indentation. `render` writes them out. Whatever is written at the beginning of a line is indented,
so that code behind an indented block goes on where it belongs.

Specification §10.7.
-/

namespace Offside.Canonical

/-- A piece of canonical source. -/
inductive Piece where
  | terminal (terminal : Terminal)
  | space
  /-- The end of a line, even of an empty one. -/
  | newline
  /-- The end of a line, unless nothing is written on it. -/
  | endLine
  /-- One level deeper from here on. -/
  | indent
  /-- One level less deep from here on. -/
  | dedent
  deriving DecidableEq

/-- The blanks before the text of a line. -/
def indentation (level : Nat) : List Char := List.replicate (2 * level) ' '

/-- A text that is indented if it begins a line. -/
def placed (level : Nat) (fresh : Bool) (text : List Char) : List Char :=
  if fresh then indentation level ++ text else text

/-- The text of pieces from a level of indentation on; `fresh` says that nothing is written on the
line so far. -/
def renderFrom : (level : Nat) → (fresh : Bool) → List Piece → List Char
  | _, _, [] => []
  | level, fresh, .terminal terminal :: rest =>
    placed level fresh terminal.spelling ++ renderFrom level false rest
  | level, fresh, .space :: rest => placed level fresh [' '] ++ renderFrom level false rest
  | level, _, .newline :: rest => '\n' :: renderFrom level true rest
  | level, fresh, .endLine :: rest =>
    if fresh then renderFrom level true rest else '\n' :: renderFrom level true rest
  | level, fresh, .indent :: rest => renderFrom (level + 1) fresh rest
  | level, fresh, .dedent :: rest => renderFrom (level - 1) fresh rest

/-- The text of pieces. -/
def render (pieces : List Piece) : List Char := renderFrom 0 true pieces

/-- The text of pieces without line feeds at its end. -/
def renderTrimmed (pieces : List Piece) : List Char :=
  ((render pieces).reverse.dropWhile (· = '\n')).reverse

/-- A symbol or a keyword. -/
def symbol (kind : TokenKind) : List Piece := [.terminal ⟨kind, .none⟩]

/-- A symbol or a keyword and a space. -/
def symbolSpace (kind : TokenKind) : List Piece := symbol kind ++ [.space]

/-- A symbol or a keyword between spaces. -/
def spaceSymbolSpace (kind : TokenKind) : List Piece := .space :: symbolSpace kind

/-- A name. -/
def identifier (value : String) : List Piece := [.terminal ⟨.identifier, .text value⟩]

/-- Pieces with commas between them. -/
def commas : List (List Piece) → List Piece
  | [] => []
  | [item] => item
  | item :: rest => item ++ symbolSpace .comma ++ commas rest

/-- A comma behind the only one of several things. -/
def loneComma {α : Type} (items : List α) : List Piece :=
  if items.length = 1 then symbol .comma else []

/-- Pieces between parentheses. -/
def parenthesized (pieces : List Piece) : List Piece :=
  symbol .leftParen ++ pieces ++ symbol .rightParen

/-- Pieces between parentheses where these are needed. -/
def parenthesizedIf (needed : Bool) (pieces : List Piece) : List Piece :=
  if needed then parenthesized pieces else pieces

/-- Pieces between square brackets. -/
def bracketed (pieces : List Piece) : List Piece :=
  symbol .leftBracket ++ pieces ++ symbol .rightBracket

end Offside.Canonical
