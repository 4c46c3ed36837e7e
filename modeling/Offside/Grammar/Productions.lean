import Offside.Grammar.Phrases

/-!
# Declarations, and the production of every rule

`production` gives each rule its right-hand side. `call` is the meaning of a rule with its results
remembered, for a bounded depth of nested rules; `parse` runs a parser with a depth that no input
exceeds, because a rule never begins again at the position and indent where it is running.

Specification §10.6.
-/

namespace Offside.Grammar

open Packrat

/-- Any number of line ends. -/
def lineEnds : Parser (List Token) := .many (.token .endOfLine)

/-- A name with an optional type behind two colons. Specification §10.6,
`param := IDENT ('::' type!)?`. -/
def parameter : Parser Parameter :=
  (name.seq (.optional ((Parser.token .doubleColon).skipLeft
    (typeExpr.commitAs (.stated "expected type"))))).map
    fun ((value, location), type) => ⟨location, value, type⟩

/-- A name, two colons, a type and a line end. Specification §10.6,
`member_decl := IDENT '::' type! EOL!`. -/
def member : Parser Member :=
  ((name.skip (.token .doubleColon)).seq (typeExpr.commitAs (.stated "expected type")) |>.skip
    (.commit (.token .endOfLine))).map
    fun ((value, location), type) => ⟨location, value, type⟩

/-- A name, parameters between parentheses and a body. Specification §10.6, `handler_decl`. -/
def handler : Parser Handler :=
  (((name.skip (.commit (.token .leftParen))).seq
      (.optional (.rule .parameters : Parser (List Parameter)))).skip
      (.commit (.token .rightParen)) |>.seq body.commit).map
    fun (((value, location), parameters), body) => ⟨location, value, parameters.getD [], body⟩

/-- A member or a handler. -/
def structItem : Parser StructItem :=
  .choice [(Parser.rule .memberDeclaration).map .member,
    (Parser.rule .handlerDeclaration).map .handler]

/-- The members among declared things, in their order. -/
def membersOf (items : List StructItem) : List Member :=
  items.filterMap fun
    | .member declared => some declared
    | .handler _ => none

/-- The handlers among declared things, in their order. -/
def handlersOf (items : List StructItem) : List Handler :=
  items.filterMap fun
    | .member _ => none
    | .handler declared => some declared

/-- A named block of members and handlers. Specification §10.6, `struct_decl`. -/
def struct : Parser Struct :=
  let items : Parser (List StructItem) :=
    .nonEmpty "member or handler declaration"
      ((Parser.block StructItem.location (.rule .structItem)).commitAs
        (.stated "expected indented struct body"))
  ((((Parser.token .kwStruct).seq name.commit).skip (.commit (.token .colon))).skip
      (.commit (.many1 (.token .endOfLine))) |>.seq items.commit).map
    fun ((word, (value, _)), items) =>
      ⟨word.location, value, membersOf items, handlersOf items⟩

/-- All structs of an input, up to its end. Specification §10.6,
`program := EOL* (struct_decl EOL*)* EOF!`. -/
def program : Parser Program :=
  (Parser.here.seq ((lineEnds.skipLeft
    (.many ((Parser.rule .structDeclaration : Parser Struct).skip lineEnds))).skip
    (.commit (.token .endOfInput)))).map fun (location, structs) => ⟨location, structs⟩

/-- What each rule reads. -/
def production : (rule : Rule) → Parser rule.Result
  | .program => program
  | .structDeclaration => struct
  | .structItem => structItem
  | .memberDeclaration => member
  | .handlerDeclaration => handler
  | .parameters => .commaSeparated parameter
  | .statement => anyStatement
  | .statementBlock => statements
  | .path => anyPath
  | .expression => .choice [(.rule .ifExpression : Parser Expression), .rule .application]
  | .ifExpression => conditional
  | .application => application
  | .xor => ladder .xor
  | .or => ladder .or
  | .and => ladder .and
  | .equality => ladder .equality
  | .relation => ladder .relation
  | .additive => ladder .additive
  | .multiplicative => ladder .multiplicative
  | .unary => unary
  | .property => propertyChain
  | .atom => atom
  | .pattern => anyPattern
  | .typeExpression => anyType

/-- The meaning of a rule, with at most the given depth of nested rules. -/
def call : (depth : Nat) → (rule : Rule) → Step rule.Result
  | 0, _ => fun _ _ => .error .exhausted
  | depth + 1, rule => .remembered rule ((production rule).run (call depth))

/-- A depth of nested rules that no parse of the input reaches: at each position each rule runs at
most once at a time. -/
def depthBound (input : Input) : Nat := Rule.all.length * (input.tokens.size + 1)

/-- Runs a parser of the grammar. -/
def parse {α : Type} (parser : Parser α) : Step α := fun input state =>
  parser.run (call (depthBound input)) input state

end Offside.Grammar
