import Offside.Packrat.Step

/-!
# Parsers as data

A `Parser` is a description of what is read, built from tokens, rules and the ways to combine them;
`Parser.run` gives it its meaning, and takes the meaning of the rules as an argument. That a
description is data lets statements about all parsers be proved by induction on it.
-/

namespace Offside.Packrat

/-- A description of a parser that yields values of a type. -/
inductive Parser : Type → Type 1 where
  /-- Succeeds without reading. -/
  | succeed {α : Type} (value : α) : Parser α
  /-- Fails recoverably at the next token, for a cause that mentions it. -/
  | fail {α : Type} (problem : Terminal → Problem) : Parser α
  /-- The location of the next token. -/
  | here : Parser Location
  /-- One token of a kind. -/
  | token (kind : TokenKind) : Parser Token
  /-- One token of a kind, as the value it carries and its location. -/
  | value {α : Type} (kind : TokenKind) (read : Payload → Option α) : Parser (α × Location)
  /-- The end of a line, or nothing just behind one. -/
  | endOfStatement : Parser Unit
  /-- The result of a rule. -/
  | rule (rule : Rule) : Parser rule.Result
  /-- The parser, unless a line has just ended. -/
  | sameLine {α : Type} (inner : Parser α) : Parser α
  /-- The parser, in the column of the innermost block only. -/
  | inBlockColumn {α : Type} (inner : Parser α) : Parser α
  /-- The parser chosen by the kind of the next token. -/
  | onKind {α : Type} (choices : TokenKind → Parser α) : Parser α
  /-- Two parsers in order. -/
  | seq {α β : Type} (first : Parser α) (second : Parser β) : Parser (α × β)
  /-- A function of what is read. -/
  | map {α β : Type} (f : α → β) (inner : Parser α) : Parser β
  /-- A judgement of what is read. -/
  | check {α β : Type} (verdict : α → Outcome β) (inner : Parser α) : Parser β
  /-- Every failure is fatal. -/
  | commit {α : Type} (inner : Parser α) : Parser α
  /-- Every failure is fatal, and a recoverable one has another cause. -/
  | commitAs {α : Type} (problem : Problem) (inner : Parser α) : Parser α
  /-- The parser or nothing. -/
  | optional {α : Type} (inner : Parser α) : Parser (Option α)
  /-- The parser any number of times. -/
  | many {α : Type} (inner : Parser α) : Parser (List α)
  /-- The parser at least once. -/
  | many1 {α : Type} (inner : Parser α) : Parser (List α)
  /-- The first parser that does not fail recoverably. -/
  | orElse {α : Type} (first second : Parser α) : Parser α
  /-- Items each of which begins a line in one column. -/
  | block {α : Type} (locate : α → Location) (item : Parser α) : Parser (List α)
  /-- The parser, which must find an item. -/
  | nonEmpty {α : Type} (what : String) (inner : Parser (List α)) : Parser (List α)

namespace Parser

variable {α β : Type}

/-- The meaning of a parser, given the meaning of the rules. -/
def run (call : (rule : Rule) → Step rule.Result) : {α : Type} → Parser α → Step α
  | _, succeed result => .succeed result
  | _, fail problem => .fail problem
  | _, here => .here
  | _, token kind => .token kind
  | _, value kind read => .value kind read
  | _, endOfStatement => .endOfStatement
  | _, rule name => call name
  | _, sameLine inner => .sameLine (inner.run call)
  | _, inBlockColumn inner => .inBlockColumn (inner.run call)
  | _, onKind choices => .onKind fun kind => (choices kind).run call
  | _, seq first second => .seq (first.run call) (second.run call)
  | _, map f inner => .mapOutcome (.map f) (inner.run call)
  | _, check verdict inner => .check (inner.run call) verdict
  | _, commit inner => .mapOutcome .commit (inner.run call)
  | _, commitAs problem inner => .mapOutcome (.commitAs problem) (inner.run call)
  | _, optional inner => .optional (inner.run call)
  | _, many inner => .many (inner.run call)
  | _, many1 inner => .many1 (inner.run call)
  | _, orElse first second => .orElse (first.run call) (second.run call)
  | _, block locate item => .block locate (item.run call)
  | _, nonEmpty what inner => .nonEmpty what (inner.run call)

/-- Two parsers in order, of which the second only has to match. -/
def skip (first : Parser α) (second : Parser β) : Parser α := (seq first second).map Prod.fst

/-- Two parsers in order, of which the first only has to match. -/
def skipLeft (first : Parser α) (second : Parser β) : Parser β := (seq first second).map Prod.snd

/-- The first of several parsers that does not fail recoverably. -/
def choice (alternatives : List (Parser α)) : Parser α :=
  alternatives.foldr orElse (fail .noAlternative)

/-- At least one item, with commas between the items; a comma promises another item. -/
def commaSeparated (item : Parser α) : Parser (List α) :=
  (seq item (many ((token .comma).skipLeft item.commit))).map fun (first, rest) => first :: rest

end Parser

end Offside.Packrat
