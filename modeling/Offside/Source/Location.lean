/-!
# Locations

A location is a character of a source file, or, for what no file holds, only the name of the file
it stands in for.

Specification §3 (locations) and §10.3 (how they are shown).
-/

namespace Offside

/-- Where a token or a node of the tree begins. Specification §3. -/
inductive Location where
  /-- The character at a row and a column, both counted from one, and at a byte offset. -/
  | concrete (file : String) (row column offset : Nat)
  /-- No character at all; only the file is known. -/
  | generated (file : String)
  deriving DecidableEq, Inhabited, Repr

namespace Location

/-- The file of the location. -/
def file : Location → String
  | concrete file .. => file
  | generated file => file

/-- The row, for a location in a file. -/
def row? : Location → Option Nat
  | concrete _ row .. => some row
  | generated _ => none

/-- The column, for a location in a file. -/
def column? : Location → Option Nat
  | concrete _ _ column _ => some column
  | generated _ => none

/-- The location is no character of a file. -/
def isGenerated : Location → Bool
  | concrete .. => false
  | generated _ => true

/-- The location as messages show it. Specification §10.3. -/
def text : Location → String
  | concrete file row column _ => s!"{file}:{row}:{column}"
  | generated file => s!"{file}:<generated>"

end Location

end Offside
