import Offside.Source.Token
import Offside.Text.Quoted

/-!
# Spellings of terminals

Every terminal has one canonical spelling, which the scanner reads as that terminal again: literals
are spelled by their value, not by the way they were once written.
-/

namespace Offside

/-- A text as a string literal. -/
def stringSpelling (value : String) : List Char :=
  '"' :: Text.Quoted.encode '"' value.toList ++ ['"']

/-- A character as a character literal. -/
def characterSpelling (value : Char) : List Char :=
  '\'' :: Text.Quoted.encode '\'' [value] ++ ['\'']

/-- The canonical spelling of a terminal. -/
def Terminal.spelling (terminal : Terminal) : List Char :=
  match terminal.payload with
  | .none => ((terminal.kind.spelling?).getD "").toList
  | .text value => if terminal.kind = .identifier then value.toList else stringSpelling value
  | .integer value => (toString value).toList
  | .float value => value.literal
  | .boolean value => (if value then "true" else "false").toList
  | .character value => characterSpelling value

end Offside
