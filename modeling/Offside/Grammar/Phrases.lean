import Offside.Grammar.Leaves

/-!
# Expressions and statements

Conditionals, messages sent by juxtaposition, the ladder of operators, atoms, statements and the
bodies that indented statements form. Each step of the ladder is a rule, and takes its operators and
whether they chain from their level.

Specification §4.5 and §10.6.
-/

namespace Offside.Grammar

open Packrat

/-- The rule for expressions. -/
def expression : Parser Expression := .rule .expression

/-- The rule for statements. -/
def statement : Parser Statement := .rule .statement

/-- The rule for the statements of one block. -/
def statementBlock : Parser (List Statement) := .rule .statementBlock

/-- A colon, a line end and indented statements; the body is located at the colon.
Specification §10.6, `':'! EOL! stmt_block!`. -/
def body : Parser Block :=
  ((Parser.commit (.token .colon)).skip (.commit (.token .endOfLine)) |>.seq
    statementBlock.commit).map fun (colon, statements) => .mk colon.location statements

/-- The word that opens an alternative, in the column of the block that the conditional is in. -/
def alignedElse : Parser Token := .inBlockColumn (.token .kwElse)

/-- A further condition and its body. -/
def elseIf : Parser ElseIf :=
  (((alignedElse.skip (.token .kwIf)).seq expression.commit).seq body.commit).map
    fun ((word, condition), body) => .mk word.location condition body

/-- A condition and its body, further ones, and a last body without a condition.
Specification §10.6, `if_expr`, where the alternatives stand in the column of the block. -/
def conditional : Parser Expression :=
  (((((Parser.token .kwIf).seq expression.commit).seq body.commit).seq (.many elseIf)).seq
    (.optional (alignedElse.skipLeft body.commit))).map
    fun ((((word, condition), body), alternatives), otherwise) =>
      .conditional word.location condition body alternatives otherwise

/-- A receiver and the messages sent to it, the first of them first. Specification §10.6, `apply`,
where the messages stand on the line. -/
def application : Parser Expression :=
  ((Parser.rule .xor : Parser Expression).seq
    (.many (.sameLine (.rule .xor : Parser Expression)))).map fun (receiver, messages) =>
      messages.foldl (fun receiver message => .send receiver.location receiver message) receiver

/-- An operator of a level, on the line of its left operand. -/
def operatorOf (level : Level) : Parser BinaryOperator :=
  .sameLine (.choice (level.operators.map fun operator =>
    (Parser.token operator.token).map fun _ => operator))

/-- An operator applied to two operands. -/
def applied (left : Expression) (operator : BinaryOperator) (right : Expression) : Expression :=
  .binary left.location operator left right

/-- Operands with operators of a level between them: any number if the level chains, and otherwise
at most two. Specification §10.6, `xor` to `multiplicative`. -/
def operands (level : Level) (operand : Parser Expression) : Parser Expression :=
  let continuation := (operatorOf level).seq operand.commit
  if level.chains then
    (operand.seq (.many continuation)).map fun (first, rest) =>
      rest.foldl (fun left (operator, right) => applied left operator right) first
  else
    (operand.seq (.optional continuation)).map fun
      | (left, some (operator, right)) => applied left operator right
      | (left, none) => left

/-- The rule for the operators of a level. -/
def levelRule : Level → Parser Expression
  | .xor => .rule .xor
  | .or => .rule .or
  | .and => .rule .and
  | .equality => .rule .equality
  | .relation => .rule .relation
  | .additive => .rule .additive
  | .multiplicative => .rule .multiplicative

/-- The operands of a level are the expressions of the next tighter one. -/
def operandOf : Level → Parser Expression
  | .xor => levelRule .or
  | .or => levelRule .and
  | .and => levelRule .equality
  | .equality => levelRule .relation
  | .relation => levelRule .additive
  | .additive => levelRule .multiplicative
  | .multiplicative => .rule .unary

/-- The expressions of a level. -/
def ladder (level : Level) : Parser Expression := operands level (operandOf level)

/-- The rule for an atom and its properties. -/
def property : Parser Expression := .rule .property

/-- An operator before its operand. -/
def signed (operator : UnaryOperator) : Parser Expression :=
  ((Parser.token operator.token).seq property.commit).map fun (sign, operand) =>
    .unary sign.location operator operand

/-- At most one operator before an operand. Specification §10.6,
`unary := '-' property! | '!' property! | property`. -/
def unary : Parser Expression := .choice [signed .negate, signed .not, property]

/-- An atom and the names of properties behind periods. Specification §10.6,
`property := atom ('.' IDENT!)*`. -/
def propertyChain : Parser Expression :=
  ((Parser.rule .atom : Parser Expression).seq
    (.many ((Parser.sameLine (.token .period)).skipLeft name.commit))).map fun (root, names) =>
      names.foldl (fun root (property, _) => .property root.location root property) root

/-- A block of statements as an expression. Specification §10.6, `'do' ':'! EOL! stmt_block!`. -/
def doBlock : Parser Expression :=
  ((Parser.token .kwDo).seq body.commit).map fun (word, body) =>
    .block (.mk word.location body.statements)

/-- A new object of a type. Specification §10.6, `'new' type!`. -/
def creation : Parser Expression :=
  ((Parser.token .kwNew).seq (typeExpr.commitAs (.stated "expected type"))).map
    fun (word, type) => .create word.location type

/-- A key, a colon and a value. Specification §10.6, `arg := IDENT ':' expr`. -/
def argument : Parser Argument :=
  ((name.skip (.commit (.token .colon))).seq expression.commit).map
    fun ((key, location), value) => .mk location key value

/-- A header and arguments between braces. Specification §10.6, the construction of messages. -/
def message : Parser Expression :=
  (((Parser.token .leftBrace).seq name.commit).seq (.optional (.commaSeparated argument)) |>.skip
    (.commit (.token .rightBrace))).map fun ((opening, (header, _)), arguments) =>
      .message opening.location header (arguments.getD [])

/-- Expressions between parentheses, with a comma behind the first. -/
def tuple : Parser Expression :=
  (((Parser.token .leftParen).seq expression.commit).seq
      ((Parser.token .comma).skipLeft (.optional (.commaSeparated expression)))
    |>.skip (.commit (.token .rightParen))).map
    fun ((opening, first), rest) => .tuple opening.location (first :: rest.getD [])

/-- Expressions between square brackets. -/
def list : Parser Expression :=
  (((Parser.token .leftBracket).seq (.optional (.commaSeparated expression))).skip
    (.commit (.token .rightBracket))).map
    fun (opening, elements) => .list opening.location (elements.getD [])

/-- One expression between parentheses, which leave no trace. Specification §10.6,
`'(' expr! ')'!`. -/
def grouped : Parser Expression :=
  ((Parser.token .leftParen).skipLeft expression.commit).skip (.commit (.token .rightParen))

/-- An expression that no operator stands in, or that brackets enclose. Specification §10.6,
`atom`. -/
def atom : Parser Expression :=
  .choice [doBlock, creation, message, tuple, list, literal, grouped]

/-- A statement that binds a pattern. Specification §10.6, `'let' pattern! '='! expr! end!`. -/
def binding : Parser Statement :=
  ((((Parser.token .kwLet).seq pattern.commit).skip (.commit (.token .assign))).seq
      expression.commit |>.skip (.commit .endOfStatement)).map
    fun ((word, pattern), value) => .bind word.location pattern value

/-- A statement that assigns to a path. Specification §10.6, `path '=' expr! end!`. -/
def assignment : Parser Statement :=
  ((path.skip (.token .assign)).seq expression.commit |>.skip (.commit .endOfStatement)).map
    fun (path, value) => .assign path.location path value

/-- A statement that runs its body for each element. Specification §10.6,
`'for' pattern! 'in'! expr! ':'! EOL! stmt_block!`. -/
def forEach : Parser Statement :=
  (((((Parser.token .kwFor).seq pattern.commit).skip (.commit (.token .kwIn))).seq
    expression.commit).seq body.commit).map
    fun (((word, pattern), iterable), body) => .forEach word.location pattern iterable body

/-- A statement that runs its body as long as a condition holds. Specification §10.6,
`'while' expr! ':'! EOL! stmt_block!`. -/
def loop : Parser Statement :=
  (((Parser.token .kwWhile).seq expression.commit).seq body.commit).map
    fun ((word, condition), body) => .loop word.location condition body

/-- An expression on its own. Specification §10.6, `expr end`. -/
def expressionStatement : Parser Statement :=
  (expression.skip .endOfStatement).map fun expression =>
    .expression expression.location expression

/-- A statement of any form. -/
def anyStatement : Parser Statement :=
  .choice [binding, assignment, forEach, loop, expressionStatement]

/-- At least one statement in a block. Specification §10.6, `stmt_block`. -/
def statements : Parser (List Statement) :=
  .nonEmpty "statement" (.block Statement.location statement)

end Offside.Grammar
