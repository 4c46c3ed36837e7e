import Offside.Tree.Declaration

/-!
# Trees without locations

Two trees are the same program text apart from where they stand if they are equal once all their
locations are erased. Erasing keeps every name, value, operator and nesting.
-/

namespace Offside

/-- The location of everything in a tree whose locations are erased. -/
def Location.nowhere : Location := .generated ""

mutual

/-- A type without its locations. -/
def TypeExpr.erase : TypeExpr → TypeExpr
  | .named _ value arguments => .named .nowhere value (eraseTypes arguments)
  | .list _ element => .list .nowhere element.erase
  | .tuple _ elements => .tuple .nowhere (eraseTypes elements)
  | .variadic _ inner => .variadic .nowhere inner.erase

/-- Types without their locations. -/
def eraseTypes : List TypeExpr → List TypeExpr
  | [] => []
  | type :: rest => type.erase :: eraseTypes rest

end

mutual

/-- A pattern without its locations. -/
def Pattern.erase : Pattern → Pattern
  | .name _ value => .name .nowhere value
  | .ignored _ => .ignored .nowhere
  | .list _ patterns => .list .nowhere (erasePatterns patterns)
  | .tuple _ patterns => .tuple .nowhere (erasePatterns patterns)
  | .variadic _ inner => .variadic .nowhere (eraseOptionalPattern inner)

/-- Patterns without their locations. -/
def erasePatterns : List Pattern → List Pattern
  | [] => []
  | pattern :: rest => pattern.erase :: erasePatterns rest

/-- A pattern that may be missing, without its locations. -/
def eraseOptionalPattern : Option Pattern → Option Pattern
  | none => none
  | some pattern => some pattern.erase

end

/-- A path without its locations. -/
def Path.erase : Path → Path
  | .name _ value => .name .nowhere value
  | .property _ inner value => .property .nowhere inner.erase value

mutual

/-- An expression without its locations. -/
def Expression.erase : Expression → Expression
  | .name _ value => .name .nowhere value
  | .string _ value => .string .nowhere value
  | .integer _ value => .integer .nowhere value
  | .float _ value => .float .nowhere value
  | .boolean _ value => .boolean .nowhere value
  | .character _ value => .character .nowhere value
  | .tuple _ elements => .tuple .nowhere (eraseExpressions elements)
  | .list _ elements => .list .nowhere (eraseExpressions elements)
  | .binary _ operator left right => .binary .nowhere operator left.erase right.erase
  | .unary _ operator operand => .unary .nowhere operator operand.erase
  | .property _ root value => .property .nowhere root.erase value
  | .create _ type => .create .nowhere type.erase
  | .message _ header arguments => .message .nowhere header (eraseArguments arguments)
  | .send _ receiver message => .send .nowhere receiver.erase message.erase
  | .block body => .block body.erase
  | .conditional _ condition body alternatives otherwise =>
    .conditional .nowhere condition.erase body.erase (eraseElseIfs alternatives)
      (eraseOtherwise otherwise)

/-- Expressions without their locations. -/
def eraseExpressions : List Expression → List Expression
  | [] => []
  | expression :: rest => expression.erase :: eraseExpressions rest

/-- A block without its locations. -/
def Block.erase : Block → Block
  | .mk _ statements => .mk .nowhere (eraseStatements statements)

/-- Statements without their locations. -/
def eraseStatements : List Statement → List Statement
  | [] => []
  | statement :: rest => statement.erase :: eraseStatements rest

/-- A statement without its locations. -/
def Statement.erase : Statement → Statement
  | .bind _ pattern value => .bind .nowhere pattern.erase value.erase
  | .assign _ path value => .assign .nowhere path.erase value.erase
  | .forEach _ pattern iterable body => .forEach .nowhere pattern.erase iterable.erase body.erase
  | .loop _ condition body => .loop .nowhere condition.erase body.erase
  | .expression _ expression => .expression .nowhere expression.erase

/-- Arguments without their locations. -/
def eraseArguments : List Argument → List Argument
  | [] => []
  | argument :: rest => argument.erase :: eraseArguments rest

/-- An argument without its locations. -/
def Argument.erase : Argument → Argument
  | .mk _ key value => .mk .nowhere key value.erase

/-- Further conditions without their locations. -/
def eraseElseIfs : List ElseIf → List ElseIf
  | [] => []
  | alternative :: rest => alternative.erase :: eraseElseIfs rest

/-- A further condition without its locations. -/
def ElseIf.erase : ElseIf → ElseIf
  | .mk _ condition body => .mk .nowhere condition.erase body.erase

/-- The body for want of a true condition without its locations. -/
def eraseOtherwise : Option Block → Option Block
  | none => none
  | some body => some body.erase

end

/-- A parameter without its locations. -/
def Parameter.erase (parameter : Parameter) : Parameter :=
  ⟨.nowhere, parameter.name, parameter.type.map TypeExpr.erase⟩

/-- A member without its locations. -/
def Member.erase (member : Member) : Member := ⟨.nowhere, member.name, member.type.erase⟩

/-- A handler without its locations. -/
def Handler.erase (handler : Handler) : Handler :=
  ⟨.nowhere, handler.name, handler.parameters.map Parameter.erase, handler.body.erase⟩

/-- A struct without its locations. -/
def Struct.erase (struct : Struct) : Struct :=
  ⟨.nowhere, struct.name, struct.members.map Member.erase, struct.handlers.map Handler.erase⟩

/-- A program without its locations. -/
def Program.erase (program : Program) : Program :=
  ⟨.nowhere, program.structs.map Struct.erase⟩

end Offside
