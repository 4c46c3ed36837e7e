import Offside.Packrat.Parser

/-!
# Names, literals, types, patterns and paths

The productions that hold no expression. In a production a part behind the token that identifies it
is committed, so that what is wrong inside is reported from inside. The sign that opens type
arguments commits to nothing, because it may be a comparison; but the types behind it are types as
elsewhere, and commit behind the sign of a list or a tuple and behind two periods.

Specification §10.6.
-/

namespace Offside.Grammar

open Packrat

/-- The rule for types. -/
def typeExpr : Parser TypeExpr := .rule .typeExpression

/-- The rule for patterns. -/
def pattern : Parser Pattern := .rule .pattern

/-- The rule for paths. -/
def path : Parser Path := .rule .path

/-- A name with its location. -/
def name : Parser (String × Location) :=
  .value .identifier fun
    | .text value => some value
    | _ => none

/-- A name as an expression. -/
def nameExpression : Parser Expression := name.map fun (value, location) => .name location value

/-- A string as an expression. -/
def stringLiteral : Parser Expression :=
  (Parser.value .string fun
    | .text value => some value
    | _ => none).map fun (value, location) => .string location value

/-- An integer as an expression. -/
def integerLiteral : Parser Expression :=
  (Parser.value .integer fun
    | .integer value => some value
    | _ => none).map fun (value, location) => .integer location value

/-- A float as an expression. -/
def floatLiteral : Parser Expression :=
  (Parser.value .float fun
    | .float value => some value
    | _ => none).map fun (value, location) => .float location value

/-- A truth value as an expression. -/
def booleanLiteral : Parser Expression :=
  (Parser.value .boolean fun
    | .boolean value => some value
    | _ => none).map fun (value, location) => .boolean location value

/-- A character as an expression. -/
def characterLiteral : Parser Expression :=
  (Parser.value .character fun
    | .character value => some value
    | _ => none).map fun (value, location) => .character location value

/-- A name or a literal. -/
def literal : Parser Expression :=
  .choice [nameExpression, stringLiteral, integerLiteral, floatLiteral, booleanLiteral,
    characterLiteral]

/-- Types between angle brackets. Specification §10.6, `'<' type (',' type)* '>'`. -/
def typeArguments : Parser (List TypeExpr) :=
  let arguments := (typeExpr.seq (.many ((Parser.token .comma).skipLeft typeExpr))).map
    fun (first, rest) => first :: rest
  ((Parser.token .less).skipLeft arguments).skip (.token .greater)

/-- A name with or without type arguments. Specification §10.6, `IDENT (...)?`. -/
def namedType : Parser TypeExpr :=
  (name.seq (.optional typeArguments)).map fun ((value, location), arguments) =>
    .named location value (arguments.getD [])

/-- A type between square brackets. Specification §10.6, `'[' type ']'`. -/
def listType : Parser TypeExpr :=
  (((Parser.token .leftBracket).seq typeExpr.commit).skip (.commit (.token .rightBracket))).map
    fun (opening, element) => .list opening.location element

/-- Types between parentheses, with a comma behind the first. Specification §10.6,
`'(' type ',' (type (',' type)*)? ')'`. -/
def tupleType : Parser TypeExpr :=
  (((Parser.token .leftParen).seq typeExpr.commit).seq
      ((Parser.commit (.token .comma)).skipLeft (.optional (.commaSeparated typeExpr)))
    |>.skip (.commit (.token .rightParen))).map
    fun ((opening, first), rest) => .tuple opening.location (first :: rest.getD [])

/-- Two periods and a type. Specification §10.6, `'..' type`. -/
def variadicType : Parser TypeExpr :=
  ((Parser.token .doublePeriod).seq typeExpr.commit).map fun (periods, inner) =>
    .variadic periods.location inner

/-- A type of any form. -/
def anyType : Parser TypeExpr := .choice [namedType, listType, tupleType, variadicType]

/-- The patterns inside brackets, which take the rest at most once; a second time is reported where
it stands. Specification §4.5 and §10.6. -/
def withOneVariadic (build : Location → List Pattern → Pattern) (opening : Location)
    (patterns : List Pattern) : Outcome Pattern :=
  match (patterns.filter Pattern.isVariadic)[1]? with
  | some second => .recoverable ⟨second.location, .severalVariadics opening⟩
  | none => .ok (build opening patterns)

/-- Patterns between square brackets. -/
def listPattern : Parser Pattern :=
  (((Parser.token .leftBracket).seq (.optional (.commaSeparated pattern))).skip
    (.commit (.token .rightBracket))).check
    fun (opening, patterns) => withOneVariadic .list opening.location (patterns.getD [])

/-- Patterns between parentheses, with a comma behind the first. -/
def tuplePattern : Parser Pattern :=
  (((Parser.token .leftParen).seq pattern.commit).seq
      ((Parser.token .comma).skipLeft (.optional (.commaSeparated pattern)))
    |>.skip (.commit (.token .rightParen))).check
    fun ((opening, first), rest) =>
      withOneVariadic .tuple opening.location (first :: rest.getD [])

/-- Two periods, and the pattern that takes the rest, if any. Specification §4.5, `..p?`. -/
def variadicPattern : Parser Pattern :=
  ((Parser.token .doublePeriod).seq (.optional pattern)).map fun (periods, inner) =>
    .variadic periods.location inner

/-- A pattern of the form that its first token tells. -/
def anyPattern : Parser Pattern :=
  .onKind fun
    | .identifier => name.map fun (value, location) => .name location value
    | .underscore => (Parser.token .underscore).map fun sign => .ignored sign.location
    | .leftBracket => listPattern
    | .leftParen => tuplePattern
    | .doublePeriod => variadicPattern
    | _ => .fail (.expectedNamed "pattern")

/-- A name, and further names behind periods. Specification §10.6, `path := IDENT ('.' IDENT!)*`. -/
def anyPath : Parser Path :=
  (name.seq (.many ((Parser.token .period).skipLeft name.commit))).map
    fun ((root, location), properties) =>
      properties.foldl (fun inner (property, _) => .property inner.location inner property)
        (.name location root)

end Offside.Grammar
