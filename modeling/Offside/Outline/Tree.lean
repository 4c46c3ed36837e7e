import Offside.Outline.Layout
import Offside.Tree.Declaration

/-!
# Outlines of trees

The outline of a node shows its form, its parts and, last, its location.
-/

namespace Offside

/-- A word as an outline. -/
def Outline.word (text : String) : Outline := .leaf text.toList

/-- A text in quotes as an outline. -/
def Outline.quoted (text : String) : Outline := .leaf (Text.Visible.string text)

/-- A number as an outline. -/
def Outline.natural (n : Nat) : Outline := .word (toString n)

/-- The outline of a location. -/
def Location.outline : Location → Outline
  | concrete file row column offset =>
    .record "Concrete"
      [.mk "file" (.quoted file), .mk "row" (.natural row), .mk "column" (.natural column),
        .mk "offset" (.natural offset)]
  | generated file => .record "Generated" [.mk "file" (.quoted file)]

/-- The outline of a node: its name, its parts and its location. -/
def Outline.node (name : String) (location : Location) (parts : List Field) : Outline :=
  .record name (parts ++ [.mk "location" location.outline])

/-- The outline of a node that is one form of several. -/
def Outline.form (form name : String) (location : Location) (parts : List Field) : Outline :=
  .tagged form (.node name location parts)

/-- The outline of what may be missing. -/
def Outline.option : Option Outline → Outline
  | none => .word "None"
  | some inner => .tagged "Some" inner

mutual

/-- The outline of a type. -/
def TypeExpr.outline : TypeExpr → Outline
  | .named location name arguments =>
    .form "Identifier" "IdentifierType" location
      [.mk "name" (.quoted name), .mk "type_arguments" (.list (typeOutlines arguments))]
  | .list location element =>
    .form "List" "ListType" location [.mk "inner" element.outline]
  | .tuple location elements =>
    .form "Tuple" "TupleType" location [.mk "inners" (.list (typeOutlines elements))]
  | .variadic location inner =>
    .form "Variadic" "VariadicType" location [.mk "inner" inner.outline]

/-- The outlines of types. -/
def typeOutlines : List TypeExpr → List Outline
  | [] => []
  | type :: rest => type.outline :: typeOutlines rest

end

mutual

/-- The outline of a pattern. -/
def Pattern.outline : Pattern → Outline
  | .name location value =>
    .form "Identifier" "IdentifierPattern" location [.mk "name" (.quoted value)]
  | .ignored location => .form "Ignore" "IgnorePattern" location []
  | .list location patterns =>
    .form "List" "ListPattern" location [.mk "patterns" (.list (patternOutlines patterns))]
  | .tuple location patterns =>
    .form "Tuple" "TuplePattern" location [.mk "patterns" (.list (patternOutlines patterns))]
  | .variadic location inner =>
    .form "Variadic" "VariadicPattern" location
      [.mk "inner" (.option (optionalPatternOutline inner))]

/-- The outlines of patterns. -/
def patternOutlines : List Pattern → List Outline
  | [] => []
  | pattern :: rest => pattern.outline :: patternOutlines rest

/-- The outline of a pattern that may be missing. -/
def optionalPatternOutline : Option Pattern → Option Outline
  | none => none
  | some pattern => some pattern.outline

end

/-- The outline of a path. -/
def Path.outline : Path → Outline
  | .name location value =>
    .form "Identifier" "IdentifierPath" location [.mk "name" (.quoted value)]
  | .property location inner value =>
    .form "Property" "PropertyPath" location
      [.mk "inner" inner.outline, .mk "name" (.quoted value)]

/-- The operator as outlines name it. -/
def BinaryOperator.label : BinaryOperator → String
  | add => "Add"
  | subtract => "Sub"
  | multiply => "Mul"
  | divide => "Div"
  | floorDivide => "IntDiv"
  | greater => "Gt"
  | greaterOrEqual => "GtEq"
  | less => "Lt"
  | lessOrEqual => "LtEq"
  | equal => "Eq"
  | notEqual => "NotEq"
  | and => "And"
  | or => "Or"
  | xor => "Xor"

/-- The operator as outlines name it. -/
def UnaryOperator.label : UnaryOperator → String
  | negate => "Neg"
  | not => "Not"

mutual

/-- The outline of an expression. -/
def Expression.outline : Expression → Outline
  | .name location value =>
    .form "Identifier" "Identifier" location [.mk "name" (.quoted value)]
  | .string location value =>
    .form "String" "StringLiteral" location [.mk "value" (.quoted value)]
  | .integer location value =>
    .form "Int" "IntLiteral" location [.mk "value" (.word (toString value))]
  | .float location value =>
    .form "Float" "FloatLiteral" location [.mk "value" (.leaf value.outlined)]
  | .boolean location value =>
    .form "Bool" "BoolLiteral" location [.mk "value" (.word (if value then "true" else "false"))]
  | .character location value =>
    .form "Char" "CharLiteral" location [.mk "value" (.leaf (Text.Visible.char value))]
  | .tuple location elements =>
    .form "Tuple" "TupleConstruction" location
      [.mk "elements" (.list (expressionOutlines elements))]
  | .list location elements =>
    .form "List" "ListConstruction" location
      [.mk "elements" (.list (expressionOutlines elements))]
  | .binary location operator left right =>
    .form "Binary" "BinaryOp" location
      [.mk "op" (.word operator.label), .mk "left" left.outline, .mk "right" right.outline]
  | .unary location operator operand =>
    .form "Unary" "UnaryOp" location
      [.mk "op" (.word operator.label), .mk "operand" operand.outline]
  | .property location root value =>
    .form "PropertyAccess" "PropertyAccess" location
      [.mk "root" root.outline, .mk "name" (.quoted value)]
  | .create location type =>
    .form "ObjectCreation" "ObjectCreation" location [.mk "type_expression" type.outline]
  | .message location header arguments =>
    .form "MessageCreation" "MessageCreation" location
      [.mk "header" (.quoted header), .mk "arguments" (.list (argumentOutlines arguments))]
  | .send location receiver message =>
    .form "MessageApplication" "MessageApplication" location
      [.mk "receiver" receiver.outline, .mk "message" message.outline]
  | .block body => .tagged "Block" body.outline
  | .conditional location condition body alternatives otherwise =>
    .form "If" "IfExpression" location
      [.mk "condition" condition.outline, .mk "body" body.outline,
        .mk "else_ifs" (.list (elseIfOutlines alternatives)),
        .mk "else_body" (.option (otherwiseOutline otherwise))]

/-- The outlines of expressions. -/
def expressionOutlines : List Expression → List Outline
  | [] => []
  | expression :: rest => expression.outline :: expressionOutlines rest

/-- The outline of a block. -/
def Block.outline : Block → Outline
  | .mk location statements =>
    .node "BlockExpression" location [.mk "statements" (.list (statementOutlines statements))]

/-- The outlines of statements. -/
def statementOutlines : List Statement → List Outline
  | [] => []
  | statement :: rest => statement.outline :: statementOutlines rest

/-- The outline of a statement. -/
def Statement.outline : Statement → Outline
  | .bind location pattern value =>
    .form "Let" "Let" location [.mk "pattern" pattern.outline, .mk "value" value.outline]
  | .assign location path value =>
    .form "Assign" "Assign" location [.mk "path" path.outline, .mk "value" value.outline]
  | .forEach location pattern iterable body =>
    .form "For" "For" location
      [.mk "pattern" pattern.outline, .mk "iterable" iterable.outline, .mk "body" body.outline]
  | .loop location condition body =>
    .form "While" "While" location [.mk "condition" condition.outline, .mk "body" body.outline]
  | .expression location expression =>
    .form "Expression" "ExpressionStatement" location [.mk "expression" expression.outline]

/-- The outlines of arguments. -/
def argumentOutlines : List Argument → List Outline
  | [] => []
  | argument :: rest => argument.outline :: argumentOutlines rest

/-- The outline of an argument. -/
def Argument.outline : Argument → Outline
  | .mk location key value =>
    .node "Argument" location [.mk "key" (.quoted key), .mk "value" value.outline]

/-- The outlines of further conditions. -/
def elseIfOutlines : List ElseIf → List Outline
  | [] => []
  | alternative :: rest => alternative.outline :: elseIfOutlines rest

/-- The outline of a further condition and its body. -/
def ElseIf.outline : ElseIf → Outline
  | .mk location condition body =>
    .node "ElseIf" location [.mk "condition" condition.outline, .mk "body" body.outline]

/-- The outline of a body that may be missing. -/
def otherwiseOutline : Option Block → Option Outline
  | none => none
  | some body => some body.outline

end

/-- The outline of a parameter. -/
def Parameter.outline (parameter : Parameter) : Outline :=
  .node "Parameter" parameter.location
    [.mk "name" (.quoted parameter.name),
      .mk "type_expression" (.option (parameter.type.map TypeExpr.outline))]

/-- The outline of a member. -/
def Member.outline (member : Member) : Outline :=
  .node "MemberDeclaration" member.location
    [.mk "name" (.quoted member.name), .mk "type_expression" member.type.outline]

/-- The outline of a handler. -/
def Handler.outline (handler : Handler) : Outline :=
  .node "MessageHandlerDeclaration" handler.location
    [.mk "name" (.quoted handler.name),
      .mk "parameters" (.list (handler.parameters.map Parameter.outline)),
      .mk "body" handler.body.outline]

/-- The outline of a struct. -/
def Struct.outline (struct : Struct) : Outline :=
  .node "StructDeclaration" struct.location
    [.mk "name" (.quoted struct.name),
      .mk "member_declarations" (.list (struct.members.map Member.outline)),
      .mk "message_handler_declarations" (.list (struct.handlers.map Handler.outline))]

/-- The outline of a program. -/
def Program.outline (program : Program) : Outline :=
  .node "Program" program.location
    [.mk "struct_declarations" (.list (program.structs.map Struct.outline))]

end Offside
