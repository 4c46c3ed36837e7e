import Offside.Grammar.Productions

/-!
# Values of composed parsers

A parser composed at run time yields values of one type. Each value has a location, which is that of
its first part; what has no part is located nowhere.
-/

namespace Offside.Session

open Packrat

/-- What a composed parser yields. -/
inductive Value where
  | token (token : Token)
  | unit
  | pair (first second : Value)
  | list (items : List Value)
  | optional (content : Option Value)
  | node (node : Node)

/-- The location of what has no part. -/
def nowhere : Location := .generated "<none>"

/-- The location of a node, which for a list of them is that of the first. -/
def nodeLocation : Node → Location
  | ⟨.program, value⟩ => Program.location value
  | ⟨.struct, value⟩ => Struct.location value
  | ⟨.structItem, value⟩ => StructItem.location value
  | ⟨.member, value⟩ => Member.location value
  | ⟨.handler, value⟩ => Handler.location value
  | ⟨.statement, value⟩ => Statement.location value
  | ⟨.path, value⟩ => Path.location value
  | ⟨.expression, value⟩ => Expression.location value
  | ⟨.pattern, value⟩ => Pattern.location value
  | ⟨.typeExpr, value⟩ => TypeExpr.location value
  | ⟨.parameters, values⟩ => (values.head?.map Parameter.location).getD nowhere
  | ⟨.statements, values⟩ => (values.head?.map Statement.location).getD nowhere

namespace Value

mutual

/-- The location of a value. -/
def location : Value → Location
  | token found => found.location
  | unit => nowhere
  | pair first _ => first.location
  | list items => headLocation items
  | optional content => contentLocation content
  | node found => nodeLocation found

/-- The location of the first of several values. -/
def headLocation : List Value → Location
  | [] => nowhere
  | first :: _ => first.location

/-- The location of a value that may be missing. -/
def contentLocation : Option Value → Location
  | none => nowhere
  | some content => content.location

end

end Value

end Offside.Session
