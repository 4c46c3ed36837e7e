import Offside.Tree.Operator
import Offside.Tree.Pattern
import Offside.Tree.TypeExpr

/-!
# Expressions and statements

Expressions, the blocks of statements inside them and the statements themselves are one mutual
family. A node is located at its first token, grouping parentheses apart; an expression built from a
left operand takes the location of that operand.

Specification §3.
-/

namespace Offside

mutual

/-- An expression. -/
inductive Expression where
  | name (location : Location) (name : String)
  | string (location : Location) (value : String)
  | integer (location : Location) (value : Int)
  | float (location : Location) (value : Binary64)
  | boolean (location : Location) (value : Bool)
  | character (location : Location) (value : Char)
  | tuple (location : Location) (elements : List Expression)
  | list (location : Location) (elements : List Expression)
  | binary (location : Location) (operator : BinaryOperator) (left right : Expression)
  | unary (location : Location) (operator : UnaryOperator) (operand : Expression)
  | property (location : Location) (root : Expression) (name : String)
  /-- A new object of a type. -/
  | create (location : Location) (type : TypeExpr)
  /-- A message with a header and named arguments. -/
  | message (location : Location) (header : String) (arguments : List Argument)
  /-- The second expression sent as a message to the first. -/
  | send (location : Location) (receiver message : Expression)
  /-- Statements run in order, located at the word that opens them. -/
  | block (body : Block)
  | conditional (location : Location) (condition : Expression) (body : Block)
    (alternatives : List ElseIf) (otherwise : Option Block)

/-- Indented statements. -/
inductive Block where
  | mk (location : Location) (statements : List Statement)

/-- A named argument of a message. -/
inductive Argument where
  | mk (location : Location) (key : String) (value : Expression)

/-- A further condition of a conditional, with its body. -/
inductive ElseIf where
  | mk (location : Location) (condition : Expression) (body : Block)

/-- A statement. -/
inductive Statement where
  /-- Binds the parts of a value to the names of a pattern. -/
  | bind (location : Location) (pattern : Pattern) (value : Expression)
  | assign (location : Location) (path : Path) (value : Expression)
  /-- Runs the body for each element of the iterable. -/
  | forEach (location : Location) (pattern : Pattern) (iterable : Expression) (body : Block)
  /-- Runs the body as long as the condition holds. -/
  | loop (location : Location) (condition : Expression) (body : Block)
  | expression (location : Location) (expression : Expression)

end

/-- The location of a block. -/
def Block.location : Block → Location
  | mk location _ => location

/-- The statements of a block. -/
def Block.statements : Block → List Statement
  | mk _ statements => statements

/-- The location of an argument. -/
def Argument.location : Argument → Location
  | mk location .. => location

/-- The location of a further condition. -/
def ElseIf.location : ElseIf → Location
  | mk location .. => location

/-- The location of an expression. -/
def Expression.location : Expression → Location
  | name location _ | string location _ | integer location _ | float location _
  | boolean location _ | character location _ | tuple location _ | list location _
  | binary location .. | unary location .. | property location .. | create location _
  | message location .. | send location .. | conditional location .. => location
  | block body => body.location

/-- The location of a statement. -/
def Statement.location : Statement → Location
  | bind location .. | assign location .. | forEach location .. | loop location ..
  | expression location _ => location

/-- An expression there always is, a name. -/
instance : Inhabited Expression := ⟨.name default default⟩

/-- A body there always is, one without statements. -/
instance : Inhabited Block := ⟨.mk default []⟩

/-- A statement there always is, an expression. -/
instance : Inhabited Statement := ⟨.expression default default⟩

end Offside
