import Offside.Session.Value

/-!
# Parsers composed at run time

A `Combinator` describes a parser whose values are all of one type, so that it can be given from
outside. `Combinator.parser` is the parser described, and `Repetition.parser` that of a description
whose values are lists.
-/

namespace Offside.Session

open Packrat

/-- A construct of the grammar that can be asked for by name. -/
inductive Construct where
  | program
  | struct
  | member
  | handler
  | statement
  | block
  | expression
  | atom
  | pattern
  | typeExpr
  | path
  | name
  deriving DecidableEq, Inhabited, Repr

/-- A rule, whose results are nodes. -/
def nodeOf (rule : Rule) : Parser Value :=
  (Parser.rule rule).map fun value => .node ⟨rule.family, value⟩

/-- The parser of a construct. A name is one as an expression, and a block is the list of its
statements. -/
def Construct.parser : Construct → Parser Value
  | program => nodeOf .program
  | struct => nodeOf .structDeclaration
  | member => nodeOf .memberDeclaration
  | handler => nodeOf .handlerDeclaration
  | statement => nodeOf .statement
  | block =>
    Grammar.statementBlock.map fun statements =>
      .list (statements.map fun statement => .node ⟨.statement, statement⟩)
  | expression => nodeOf .expression
  | atom => nodeOf .atom
  | pattern => nodeOf .pattern
  | typeExpr => nodeOf .typeExpression
  | path => nodeOf .path
  | name => Grammar.nameExpression.map fun expression => .node ⟨.expression, expression⟩

/-- A judgement of values. -/
inductive Verdict where
  /-- Accepts every value. -/
  | accept
  /-- Fails recoverably at every value. -/
  | reject (message : String)
  /-- Fails fatally at every value. -/
  | abort (message : String)
  /-- Looks at the value, and fails anywhere. -/
  | judge (judgement : Value → Outcome Unit)
  deriving Inhabited

/-- The outcome of a judgement, which is the value itself where it is accepted. -/
def Verdict.outcome (verdict : Verdict) (value : Value) : Outcome Value :=
  match verdict with
  | accept => .ok value
  | reject message => .recoverable ⟨value.location, .stated message⟩
  | abort message => .fatal ⟨value.location, .stated message⟩
  | judge judgement => (judgement value).map fun _ => value

mutual

/-- A description of a parser. -/
inductive Combinator where
  | token (kind : TokenKind)
  | endOfStatement
  | sameLine (inner : Combinator)
  | optional (inner : Combinator)
  | commit (inner : Combinator)
  | commitAs (message : String) (inner : Combinator)
  | choice (alternatives : List Combinator)
  | orElse (first second : Combinator)
  | seq (first second : Combinator)
  | skip (first second : Combinator)
  | skipLeft (first second : Combinator)
  | check (verdict : Verdict) (inner : Combinator)
  | construct (construct : Construct)
  | rule (rule : Rule)
  | repetition (items : Repetition)

/-- A description of a parser of lists. -/
inductive Repetition where
  | many (item : Combinator)
  | many1 (item : Combinator)
  | commaSeparated (item : Combinator)
  | block (item : Combinator)
  | nonEmpty (what : String) (items : Repetition)

end

mutual

/-- The parser that is described. -/
def Combinator.parser : Combinator → Parser Value
  | .token kind => (Parser.token kind).map .token
  | .endOfStatement => Parser.endOfStatement.map fun _ => .unit
  | .sameLine inner => .sameLine inner.parser
  | .optional inner => (Parser.optional inner.parser).map .optional
  | .commit inner => .commit inner.parser
  | .commitAs message inner => .commitAs (.stated message) inner.parser
  | .choice alternatives => .choice (alternativeParsers alternatives)
  | .orElse first second => .choice [first.parser, second.parser]
  | .seq first second => (Parser.seq first.parser second.parser).map fun (a, b) => .pair a b
  | .skip first second => first.parser.skip second.parser
  | .skipLeft first second => first.parser.skipLeft second.parser
  | .check verdict inner => .check verdict.outcome inner.parser
  | .construct construct => construct.parser
  | .rule rule => nodeOf rule
  | .repetition items => items.parser.map .list

/-- The parsers of alternatives. -/
def alternativeParsers : List Combinator → List (Parser Value)
  | [] => []
  | alternative :: rest => alternative.parser :: alternativeParsers rest

/-- The parser of lists that is described. -/
def Repetition.parser : Repetition → Parser (List Value)
  | .many item => .many item.parser
  | .many1 item => .many1 item.parser
  | .commaSeparated item => .commaSeparated item.parser
  | .block item => .block Value.location item.parser
  | .nonEmpty what items => .nonEmpty what items.parser

end

end Offside.Session
