import Offside.Tree.Expression

/-!
# Declarations

A program is a list of structs; a struct declares members, which hold values, and handlers, which
answer messages.

Specification §3.
-/

namespace Offside

/-- A parameter of a handler, with an optional type. -/
structure Parameter where
  location : Location
  name : String
  type : Option TypeExpr
  deriving Inhabited

/-- A member of a struct. -/
structure Member where
  location : Location
  name : String
  type : TypeExpr
  deriving Inhabited

/-- A handler of a struct: the statements that answer one message. -/
structure Handler where
  location : Location
  name : String
  parameters : List Parameter
  body : Block
  deriving Inhabited

/-- One of the two things that a struct declares. -/
inductive StructItem where
  | member (declared : Member)
  | handler (declared : Handler)
  deriving Inhabited

/-- The location of a declared thing. -/
def StructItem.location : StructItem → Location
  | member declared => declared.location
  | handler declared => declared.location

/-- A struct, its members and its handlers each in source order. -/
structure Struct where
  location : Location
  name : String
  members : List Member
  handlers : List Handler
  deriving Inhabited

/-- The first handler of a name. -/
def Struct.handler? (struct : Struct) (name : String) : Option Handler :=
  struct.handlers.find? (·.name == name)

/-- A whole source text. Specification §3 and §6. -/
structure Program where
  location : Location
  structs : List Struct
  deriving Inhabited

/-- The first struct of a name. -/
def Program.struct? (program : Program) (name : String) : Option Struct :=
  program.structs.find? (·.name == name)

end Offside
