import Offside.Tree.Declaration

/-!
# Rules of the grammar

Each rule yields nodes of one family, and a family fixes the type of its nodes
(`Family.Carrier`). A `Node` is a value together with its family; `Node.as?` gives the value back
to who asks for the right family.
-/

namespace Offside

/-- What a rule yields. -/
inductive Family where
  | program
  | struct
  | structItem
  | member
  | handler
  | parameters
  | statement
  | statements
  | path
  | expression
  | pattern
  | typeExpr
  deriving DecidableEq, Inhabited, Repr

/-- The type of the nodes of a family. -/
abbrev Family.Carrier : Family → Type
  | program => Program
  | struct => Struct
  | structItem => StructItem
  | member => Member
  | handler => Handler
  | parameters => List Parameter
  | statement => Statement
  | statements => List Statement
  | path => Path
  | expression => Expression
  | pattern => Pattern
  | typeExpr => TypeExpr

/-- The rules whose results are remembered. -/
inductive Rule where
  | program
  | structDeclaration
  | structItem
  | memberDeclaration
  | handlerDeclaration
  | parameters
  | statement
  | statementBlock
  | path
  | expression
  | ifExpression
  | application
  | xor
  | or
  | and
  | equality
  | relation
  | additive
  | multiplicative
  | unary
  | property
  | atom
  | pattern
  | typeExpression
  deriving DecidableEq, Inhabited, Repr

namespace Rule

/-- The family of what a rule yields. -/
def family : Rule → Family
  | program => .program
  | structDeclaration => .struct
  | structItem => .structItem
  | memberDeclaration => .member
  | handlerDeclaration => .handler
  | parameters => .parameters
  | statement => .statement
  | statementBlock => .statements
  | path => .path
  | pattern => .pattern
  | typeExpression => .typeExpr
  | expression | ifExpression | application | xor | or | and | equality | relation | additive
  | multiplicative | unary | property | atom => .expression

/-- The type of what a rule yields. -/
abbrev Result (rule : Rule) : Type := rule.family.Carrier

/-- The rule as messages name it. -/
def name : Rule → String
  | program => "Program"
  | structDeclaration => "StructDeclaration"
  | structItem => "StructItem"
  | memberDeclaration => "MemberDeclaration"
  | handlerDeclaration => "MessageHandlerDeclaration"
  | parameters => "Parameters"
  | statement => "Statement"
  | statementBlock => "StatementBlock"
  | path => "Path"
  | expression => "Expression"
  | ifExpression => "IfExpression"
  | application => "Application"
  | xor => "Xor"
  | or => "Or"
  | and => "And"
  | equality => "Equality"
  | relation => "Relation"
  | additive => "Additive"
  | multiplicative => "Multiplicative"
  | unary => "Unary"
  | property => "Property"
  | atom => "Atom"
  | pattern => "Pattern"
  | typeExpression => "TypeExpression"

/-- Every rule. -/
def all : List Rule :=
  [program, structDeclaration, structItem, memberDeclaration, handlerDeclaration, parameters,
    statement, statementBlock, path, expression, ifExpression, application, xor, or, and, equality,
    relation, additive, multiplicative, unary, property, atom, pattern, typeExpression]

/-- No rule is left out of `all`. -/
theorem mem_all (rule : Rule) : rule ∈ all := by cases rule <;> decide

end Rule

/-- A result of some rule, with its family. -/
structure Node where
  family : Family
  value : family.Carrier

/-- The value of a node, if the node is of the family asked for. -/
def Node.as? (node : Node) (family : Family) : Option family.Carrier :=
  if h : node.family = family then some (h ▸ node.value) else none

/-- A value is given back to who asks for its own family. -/
@[simp] theorem Node.as?_mk (family : Family) (value : family.Carrier) :
    (Node.mk family value).as? family = some value := by
  simp [Node.as?]

end Offside
