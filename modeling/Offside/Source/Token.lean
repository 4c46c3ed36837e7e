import Offside.Binary64.Text
import Offside.Source.Location
import Offside.Text.Visible

/-!
# Tokens

A token is a kind, the value of a name or a literal, and the location of its first character;
without its location it is a terminal. The kinds with one spelling say so in `TokenKind.spelling?`,
which the scanner reads, the messages quote and the printer writes.

Specification §3 (tokens), §6 (their kinds) and §10.2.
-/

namespace Offside

/-- The kinds of tokens. Specification §6. -/
inductive TokenKind where
  | endOfInput
  | endOfLine
  | colon
  | doubleColon
  | leftParen
  | rightParen
  | leftBracket
  | rightBracket
  | leftBrace
  | rightBrace
  | assign
  | equal
  | notEqual
  | greater
  | greaterOrEqual
  | less
  | lessOrEqual
  | exclamation
  | plus
  | minus
  | slash
  | doubleSlash
  | star
  | period
  | doublePeriod
  | comma
  | underscore
  | kwStruct
  | kwLet
  | kwDo
  | kwIf
  | kwElse
  | kwFor
  | kwIn
  | kwWhile
  | kwAnd
  | kwOr
  | kwXor
  | kwNew
  | identifier
  | string
  | integer
  | boolean
  | character
  | float
  deriving DecidableEq, Inhabited, Repr

namespace TokenKind

/-- The one spelling of a symbol or a keyword. -/
def spelling? : TokenKind → Option String
  | colon => some ":"
  | doubleColon => some "::"
  | leftParen => some "("
  | rightParen => some ")"
  | leftBracket => some "["
  | rightBracket => some "]"
  | leftBrace => some "\x7b"
  | rightBrace => some "\x7d"
  | assign => some "="
  | equal => some "=="
  | notEqual => some "!="
  | greater => some ">"
  | greaterOrEqual => some ">="
  | less => some "<"
  | lessOrEqual => some "<="
  | exclamation => some "!"
  | plus => some "+"
  | minus => some "-"
  | slash => some "/"
  | doubleSlash => some "//"
  | star => some "*"
  | period => some "."
  | doublePeriod => some ".."
  | comma => some ","
  | underscore => some "_"
  | kwStruct => some "struct"
  | kwLet => some "let"
  | kwDo => some "do"
  | kwIf => some "if"
  | kwElse => some "else"
  | kwFor => some "for"
  | kwIn => some "in"
  | kwWhile => some "while"
  | kwAnd => some "and"
  | kwOr => some "or"
  | kwXor => some "xor"
  | kwNew => some "new"
  | endOfInput | endOfLine | identifier | string | integer | boolean | character | float => none

/-- The kinds with one spelling. -/
def spelled : List TokenKind :=
  [colon, doubleColon, leftParen, rightParen, leftBracket, rightBracket, leftBrace, rightBrace,
    assign, equal, notEqual, greater, greaterOrEqual, less, lessOrEqual, exclamation, plus, minus,
    slash, doubleSlash, star, period, doublePeriod, comma, underscore, kwStruct, kwLet, kwDo, kwIf,
    kwElse, kwFor, kwIn, kwWhile, kwAnd, kwOr, kwXor, kwNew]

/-- A kind without one spelling in words. -/
def words : TokenKind → String
  | endOfInput => "end of input"
  | endOfLine => "end of line"
  | identifier => "identifier"
  | string => "string"
  | integer => "integer"
  | boolean => "boolean"
  | character => "character"
  | float => "float"
  | _ => ""

/-- The kind as messages show it: its spelling in quotes, or its name. -/
def describe (kind : TokenKind) : String :=
  match kind.spelling? with
  | some spelling => s!"'{spelling}'"
  | none => kind.words

end TokenKind

/-- The value that a name or a literal carries. Specification §3. -/
inductive Payload where
  | none
  | text (value : String)
  | integer (value : Int)
  | float (value : Binary64)
  | boolean (value : Bool)
  | character (value : Char)
  deriving DecidableEq, Inhabited

/-- A kind together with the value that goes with it. -/
structure Terminal where
  kind : TokenKind
  payload : Payload
  deriving DecidableEq, Inhabited

/-- The terminal as messages show it: its value if it carries one, and otherwise its kind. -/
def Terminal.describe (terminal : Terminal) : String :=
  match terminal.payload with
  | .none => terminal.kind.describe
  | .text value =>
    if terminal.kind = .identifier then s!"identifier '{value}'"
    else "string " ++ String.ofList (Text.Visible.string value)
  | .integer value => s!"integer '{value}'"
  | .float value => "float '" ++ String.ofList value.plain ++ "'"
  | .boolean value => if value then "boolean 'true'" else "boolean 'false'"
  | .character value => "character " ++ String.ofList (Text.Visible.char value)

/-- A terminal at a location. Specification §3. -/
structure Token extends Terminal where
  location : Location
  deriving DecidableEq, Inhabited

end Offside
