import Offside.Source.Location

/-!
# Types

The type expressions that members, parameters and object creations are written with.

Specification §3.
-/

namespace Offside

/-- A type expression, located at its first token. Specification §3. -/
inductive TypeExpr where
  /-- A name with type arguments, which may be none. -/
  | named (location : Location) (name : String) (arguments : List TypeExpr)
  /-- Lists of one type. -/
  | list (location : Location) (element : TypeExpr)
  /-- Tuples of the given types. -/
  | tuple (location : Location) (elements : List TypeExpr)
  /-- Any number of values of one type. -/
  | variadic (location : Location) (inner : TypeExpr)
  deriving Inhabited

/-- The location of a type expression. -/
def TypeExpr.location : TypeExpr → Location
  | named location .. | list location _ | tuple location _ | variadic location _ => location

end Offside
