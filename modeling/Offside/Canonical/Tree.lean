import Offside.Canonical.Layout
import Offside.Grammar.Rule

/-!
# Canonical source of trees

Each node of the tree has its pieces. Parentheses are written where the precedence of an expression
is lower than that of its place, and around an expression that ends with a block where more of the
line follows, because the closing parenthesis carries the line on.

Specification §10.7.
-/

namespace Offside

open Canonical

mutual

/-- The pieces of a type. -/
def TypeExpr.pieces : TypeExpr → List Piece
  | .named _ value [] => identifier value
  | .named _ value (first :: rest) =>
    identifier value ++ symbol .less ++ commas (first.pieces :: typePieces rest) ++ symbol .greater
  | .list _ element => bracketed element.pieces
  | .tuple _ elements => parenthesized (commas (typePieces elements) ++ loneComma elements)
  | .variadic _ inner => symbol .doublePeriod ++ inner.pieces

/-- The pieces of each of several types. -/
def typePieces : List TypeExpr → List (List Piece)
  | [] => []
  | type :: rest => type.pieces :: typePieces rest

end

mutual

/-- The pieces of a pattern. -/
def Pattern.pieces : Pattern → List Piece
  | .name _ value => identifier value
  | .ignored _ => symbol .underscore
  | .list _ patterns => bracketed (commas (patternPieces patterns))
  | .tuple _ patterns => parenthesized (commas (patternPieces patterns) ++ loneComma patterns)
  | .variadic _ inner => symbol .doublePeriod ++ optionalPatternPieces inner

/-- The pieces of each of several patterns. -/
def patternPieces : List Pattern → List (List Piece)
  | [] => []
  | pattern :: rest => pattern.pieces :: patternPieces rest

/-- The pieces of a pattern that may be missing. -/
def optionalPatternPieces : Option Pattern → List Piece
  | none => []
  | some pattern => pattern.pieces

end

/-- The pieces of a path. -/
def Path.pieces : Path → List Piece
  | .name _ value => identifier value
  | .property _ inner value => inner.pieces ++ symbol .period ++ identifier value

/-- How tightly the forms of expressions bind that have no level of their own. -/
inductive Precedence where
  /-- A whole expression, which a conditional may be. -/
  | loosest
  | application
  | unary
  | property

/-- Precedences as numbers, between which the levels of operators stand. -/
def Precedence.rank : Precedence → Nat
  | loosest => 0
  | application => 1
  | unary => 9
  | property => 10

namespace Expression

/-- The last line of the expression is the last line of a block. -/
def endsWithBlock : Expression → Bool
  | block _ | conditional .. => true
  | binary _ _ _ right => right.endsWithBlock
  | unary _ _ operand => operand.endsWithBlock
  | send _ _ sent => sent.endsWithBlock
  | _ => false

/-- The expression is written with a minus sign first, parentheses apart. -/
def startsWithMinus : Expression → Bool
  | unary _ operator _ => operator = .negate
  | binary _ _ left _ => left.startsWithMinus
  | send _ receiver _ => receiver.startsWithMinus
  | _ => false

end Expression

/-- The rank asked for inside a place that may be between parentheses, which admit every
expression. -/
def rankInside (parentheses : Bool) (rank : Nat) : Nat :=
  if parentheses then Precedence.loosest.rank else rank

/-- The rank that the left operand of an operator must have: that of the operator if it chains, and
a higher one otherwise. -/
def BinaryOperator.leftRank (operator : BinaryOperator) : Nat :=
  if operator.level.chains then operator.level.precedence else operator.level.precedence + 1

mutual

/-- The pieces of an expression in a place that asks for a rank. -/
def Expression.pieces (rank : Nat) : Expression → List Piece
  | .name _ value => identifier value
  | .string _ value => [.terminal ⟨.string, .text value⟩]
  | .integer _ value => [.terminal ⟨.integer, .integer value⟩]
  | .float _ value => [.terminal ⟨.float, .float value⟩]
  | .boolean _ value => [.terminal ⟨.boolean, .boolean value⟩]
  | .character _ value => [.terminal ⟨.character, .character value⟩]
  | .tuple _ elements => parenthesized (commas (expressionPieces elements) ++ loneComma elements)
  | .list _ elements => bracketed (commas (expressionPieces elements))
  | .block body => symbol .kwDo ++ body.pieces
  | .create _ type => symbolSpace .kwNew ++ type.pieces
  | .message _ header arguments =>
    symbol .leftBrace ++ identifier header ++
      (if arguments.isEmpty then [] else .space :: commas (argumentPieces arguments)) ++
      symbol .rightBrace
  | .property _ root value =>
    parenthesizedIf (Precedence.property.rank < rank) <|
      parenthesizedIf root.endsWithBlock
          (root.pieces (rankInside root.endsWithBlock Precedence.property.rank)) ++
        symbol .period ++ identifier value
  | .unary _ operator operand =>
    parenthesizedIf (Precedence.unary.rank < rank) <|
      symbol operator.token ++ operand.pieces Precedence.property.rank
  | .binary _ operator left right =>
    parenthesizedIf (operator.level.precedence < rank) <|
      parenthesizedIf left.endsWithBlock
          (left.pieces (rankInside left.endsWithBlock operator.leftRank)) ++
        spaceSymbolSpace operator.token ++ right.pieces (operator.level.precedence + 1)
  | .send _ receiver message =>
    parenthesizedIf (Precedence.application.rank < rank) <|
      parenthesizedIf receiver.endsWithBlock
          (receiver.pieces (rankInside receiver.endsWithBlock Precedence.application.rank)) ++
        .space :: parenthesizedIf message.startsWithMinus
          (message.pieces (rankInside message.startsWithMinus (Precedence.application.rank + 1)))
  | .conditional _ condition body alternatives otherwise =>
    parenthesizedIf (Precedence.loosest.rank < rank) <|
      symbolSpace .kwIf ++
        parenthesizedIf condition.endsWithBlock (condition.pieces Precedence.loosest.rank) ++
        body.pieces ++ elseIfPieces alternatives ++ otherwisePieces otherwise

/-- The pieces of each of several expressions. -/
def expressionPieces : List Expression → List (List Piece)
  | [] => []
  | expression :: rest => expression.pieces Precedence.loosest.rank :: expressionPieces rest

/-- The pieces of a body from its colon on; they leave a fresh line. -/
def Block.pieces : Block → List Piece
  | .mk _ statements =>
    symbol .colon ++ [.newline, .indent] ++ statementPieces statements ++ [.dedent]

/-- The pieces of the statements of a body. -/
def statementPieces : List Statement → List Piece
  | [] => []
  | statement :: rest => statement.pieces ++ statementPieces rest

/-- The pieces of a statement; they leave a fresh line. -/
def Statement.pieces : Statement → List Piece
  | .bind _ pattern value =>
    symbolSpace .kwLet ++ pattern.pieces ++ spaceSymbolSpace .assign ++
      value.pieces Precedence.loosest.rank ++ [.endLine]
  | .assign _ path value =>
    path.pieces ++ spaceSymbolSpace .assign ++ value.pieces Precedence.loosest.rank ++ [.endLine]
  | .forEach _ pattern iterable body =>
    symbolSpace .kwFor ++ pattern.pieces ++ spaceSymbolSpace .kwIn ++
      parenthesizedIf iterable.endsWithBlock (iterable.pieces Precedence.loosest.rank) ++
      body.pieces ++ [.endLine]
  | .loop _ condition body =>
    symbolSpace .kwWhile ++
      parenthesizedIf condition.endsWithBlock (condition.pieces Precedence.loosest.rank) ++
      body.pieces ++ [.endLine]
  | .expression _ expression => expression.pieces Precedence.loosest.rank ++ [.endLine]

/-- The pieces of each of several arguments. -/
def argumentPieces : List Argument → List (List Piece)
  | [] => []
  | argument :: rest => argument.pieces :: argumentPieces rest

/-- The pieces of an argument. -/
def Argument.pieces : Argument → List Piece
  | .mk _ key value =>
    identifier key ++ symbolSpace .colon ++ value.pieces Precedence.loosest.rank

/-- The pieces of further conditions and their bodies. -/
def elseIfPieces : List ElseIf → List Piece
  | [] => []
  | alternative :: rest => alternative.pieces ++ elseIfPieces rest

/-- The pieces of a further condition and its body. -/
def ElseIf.pieces : ElseIf → List Piece
  | .mk _ condition body =>
    symbolSpace .kwElse ++ symbolSpace .kwIf ++
      parenthesizedIf condition.endsWithBlock (condition.pieces Precedence.loosest.rank) ++
      body.pieces

/-- The pieces of the body for want of a true condition. -/
def otherwisePieces : Option Block → List Piece
  | none => []
  | some body => symbol .kwElse ++ body.pieces

end

/-- The pieces of a type behind a declared name. -/
def annotationPieces (type : TypeExpr) : List Piece :=
  spaceSymbolSpace .doubleColon ++ type.pieces

/-- The pieces of a parameter. -/
def Parameter.pieces (parameter : Parameter) : List Piece :=
  identifier parameter.name ++ (parameter.type.map annotationPieces).getD []

/-- The pieces of a member. -/
def Member.pieces (member : Member) : List Piece :=
  identifier member.name ++ annotationPieces member.type ++ [.newline]

/-- The pieces of a handler. -/
def Handler.pieces (handler : Handler) : List Piece :=
  identifier handler.name ++ parenthesized (commas (handler.parameters.map Parameter.pieces)) ++
    handler.body.pieces

/-- The pieces of a struct. -/
def Struct.pieces (struct : Struct) : List Piece :=
  symbolSpace .kwStruct ++ identifier struct.name ++ symbol .colon ++ [.newline, .indent] ++
    struct.members.flatMap Member.pieces ++ struct.handlers.flatMap Handler.pieces ++ [.dedent]

/-- The pieces of a program: its structs, with an empty line between them. -/
def Program.pieces (program : Program) : List Piece :=
  ((program.structs.map Struct.pieces).intersperse [.newline]).flatten

/-- The canonical source of a program. Specification §10.7. -/
def Program.text (program : Program) : String := String.ofList (render program.pieces)

/-- The canonical source of a struct. -/
def Struct.text (struct : Struct) : String := String.ofList (renderTrimmed struct.pieces)

/-- The canonical source of a statement. -/
def Statement.text (statement : Statement) : String :=
  String.ofList (renderTrimmed statement.pieces)

/-- The canonical source of an expression. -/
def Expression.text (expression : Expression) : String :=
  String.ofList (renderTrimmed (expression.pieces Precedence.loosest.rank))

/-- The canonical source of a pattern. -/
def Pattern.text (pattern : Pattern) : String := String.ofList (renderTrimmed pattern.pieces)

/-- The canonical source of a type. -/
def TypeExpr.text (type : TypeExpr) : String := String.ofList (renderTrimmed type.pieces)

/-- The canonical source of a path. -/
def Path.text (path : Path) : String := String.ofList (renderTrimmed path.pieces)

/-- The canonical source of a node, for the families that have one on their own. -/
def Node.text? : Node → Option String
  | ⟨.program, value⟩ => some (Program.text value)
  | ⟨.struct, value⟩ => some (Struct.text value)
  | ⟨.statement, value⟩ => some (Statement.text value)
  | ⟨.expression, value⟩ => some (Expression.text value)
  | ⟨.pattern, value⟩ => some (Pattern.text value)
  | ⟨.typeExpr, value⟩ => some (TypeExpr.text value)
  | ⟨.path, value⟩ => some (Path.text value)
  | ⟨.structItem, _⟩ | ⟨.member, _⟩ | ⟨.handler, _⟩ | ⟨.parameters, _⟩ | ⟨.statements, _⟩ => none

end Offside
