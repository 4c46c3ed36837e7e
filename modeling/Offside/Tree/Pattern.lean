import Offside.Source.Location

/-!
# Patterns and paths

A pattern takes a value apart where it is bound; a path names the variable, or the property of one,
that an assignment changes.

Specification §3.
-/

namespace Offside

/-- A pattern, located at its first token. Specification §3 and §10.6. -/
inductive Pattern where
  /-- Binds the value to a name. -/
  | name (location : Location) (name : String)
  /-- Binds nothing. -/
  | ignored (location : Location)
  | list (location : Location) (patterns : List Pattern)
  | tuple (location : Location) (patterns : List Pattern)
  /-- Binds the remaining elements, or drops them. -/
  | variadic (location : Location) (inner : Option Pattern)
  deriving Inhabited

namespace Pattern

/-- The location of a pattern. -/
def location : Pattern → Location
  | name location _ | ignored location | list location _ | tuple location _
  | variadic location _ => location

/-- The pattern stands for any number of elements. -/
def isVariadic : Pattern → Bool
  | variadic .. => true
  | _ => false

end Pattern

/-- The target of an assignment. Specification §3. -/
inductive Path where
  | name (location : Location) (name : String)
  /-- A property of what the inner path names. -/
  | property (location : Location) (inner : Path) (name : String)
  deriving Inhabited

/-- The location of a path. -/
def Path.location : Path → Location
  | name location _ | property location _ _ => location

end Offside
