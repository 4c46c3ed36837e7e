import Offside.Source.LexemeClass

/-!
# The tokens of a source text

`Token.ofSource` reads a text from left to right: blanks separate lexemes, each lexeme becomes one
token at the place of its first character, and a token for the end of the input closes the list.
The first text that is no lexeme, or that reads as no value, ends the reading with a `LexicalError`.

Specification §10.2.
-/

namespace Offside

/-- A lexeme that could not be read. -/
structure LexicalError where
  location : Location
  fault : LexicalFault
  /-- The characters at fault. -/
  snippet : String
  deriving DecidableEq, Inhabited

/-- The error as messages show it. -/
def LexicalError.text (error : LexicalError) : String :=
  s!"{error.location.text}: {error.fault.message} '{error.snippet}'"

/-- A place between two characters of a text. -/
structure Place where
  row : Nat
  column : Nat
  /-- The bytes before the place. -/
  offset : Nat
  deriving DecidableEq, Inhabited

namespace Place

/-- The place before the first character. -/
def start : Place := ⟨1, 1, 0⟩

/-- The place behind a character: a line feed begins a row. -/
def after (place : Place) (c : Char) : Place :=
  if c = '\n' then ⟨place.row + 1, 1, place.offset + c.utf8Size⟩
  else ⟨place.row, place.column + 1, place.offset + c.utf8Size⟩

/-- The place as a location in a file. -/
def inFile (place : Place) (file : String) : Location :=
  .concrete file place.row place.column place.offset

end Place

namespace Token

/-- The character separates lexemes and is part of none outside literals. Specification §10.2. -/
def isBlank (c : Char) : Bool := c == ' ' || c == '\t' || c == '\r'

/-- The tokens of the characters from a place on, of which the first `pending` belong to a lexeme
that has been read already. Specification §10.2: the first error ends the scan, and the end of the
input is the last token. -/
def scan (file : String) :
    (pending : Nat) → Place → List Char → Except LexicalError (List Token)
  | _, place, [] => .ok [⟨⟨.endOfInput, .none⟩, place.inFile file⟩]
  | pending + 1, place, c :: rest => scan file pending (place.after c) rest
  | 0, place, c :: rest =>
    if isBlank c then scan file 0 (place.after c) rest
    else
      match LexemeClass.longest (c :: rest) with
      | none => .error ⟨place.inFile file, .unexpectedCharacter, String.ofList [c]⟩
      | some (lexemeClass, length) =>
        let lexeme := (c :: rest).take length
        match lexemeClass.read lexeme with
        | .error fault => .error ⟨place.inFile file, fault, String.ofList lexeme⟩
        | .ok terminal =>
          match scan file (length - 1) (place.after c) rest with
          | .error error => .error error
          | .ok later => .ok (⟨terminal, place.inFile file⟩ :: later)

/-- The characters of a lexeme that has been read only move the place. -/
theorem scan_length_append (file : String) (place : Place) (lexeme rest : List Char) :
    scan file lexeme.length place (lexeme ++ rest) =
      scan file 0 (lexeme.foldl Place.after place) rest := by
  induction lexeme generalizing place with
  | nil => rfl
  | cons c lexeme ih => exact ih (place.after c)

/-- The tokens of the text of a file, closed by one for the end of the input.
Specification §10.2. -/
def ofSource (file source : String) : Except LexicalError (List Token) :=
  scan file 0 .start source.toList

end Token

end Offside
