import Offside.Source.Token
import Offside.Text.Quoted
import Offside.Unicode.Letter
import Offside.Unicode.Number

/-!
# Classes of lexemes

Each class says how long a prefix of a text it accepts (`LexemeClass.extent`, zero for none, since
no lexeme is empty) and which terminal an accepted lexeme writes (`LexemeClass.read`). A lexeme
is the longest prefix that any class accepts; of equally long ones the class listed earlier in
`LexemeClass.all` is taken, so that keywords come before names.

Specification §10.2.
-/

namespace Offside

/-- Why a text holds no token at some place. Specification §10.2, the last point. -/
inductive LexicalFault where
  | unexpectedCharacter
  | unknownEscape
  | unterminatedString
  | malformedCharacter
  | invalidNumber
  deriving DecidableEq, Inhabited

/-- The fault in words. -/
def LexicalFault.message : LexicalFault → String
  | unexpectedCharacter => "unexpected character"
  | unknownEscape => "unknown escape sequence"
  | unterminatedString => "unterminated string literal"
  | malformedCharacter => "malformed character literal"
  | invalidNumber => "invalid numeric literal"

namespace Lexeme

/-- The character begins a name. -/
def startsName (c : Char) : Bool := Unicode.isLetter c || c == '_'

/-- The character continues a name. -/
def continuesName (c : Char) : Bool := startsName c || Unicode.isNumber c

/-- The character is a hexadecimal digit. -/
def isHexDigit (c : Char) : Bool :=
  c.isDigit || ('a' ≤ c && c ≤ 'f') || ('A' ≤ c && c ≤ 'F')

/-- The character is a binary digit. -/
def isBinaryDigit (c : Char) : Bool := c == '0' || c == '1'

/-- The number of characters at the front of a text that satisfy a test. -/
def run (test : Char → Bool) (text : List Char) : Nat := (text.takeWhile test).length

/-- A zero, one of two marks for the base, and at least one digit of that base. -/
def basedExtent (lower upper : Char) (digit : Char → Bool) : List Char → Nat
  | '0' :: mark :: rest =>
    let digits := run digit rest
    if (mark = lower || mark = upper) && 0 < digits then 2 + digits else 0
  | _ => 0

/-- A point and at least one digit. -/
def fractionExtent : List Char → Nat
  | '.' :: rest =>
    let digits := run Char.isDigit rest
    if 0 < digits then 1 + digits else 0
  | _ => 0

/-- The mark `e` or `E`, an optional sign, and at least one digit. -/
def exponentExtent : List Char → Nat
  | mark :: rest =>
    let sign := match rest with
      | '+' :: _ | '-' :: _ => 1
      | _ => 0
    let digits := run Char.isDigit (rest.drop sign)
    if (mark = 'e' || mark = 'E') && 0 < digits then 1 + sign + digits else 0
  | [] => 0

/-- Digits followed by a fraction, by an exponent, or by both. -/
def floatExtent (text : List Char) : Nat :=
  let whole := run Char.isDigit text
  let fraction := fractionExtent (text.drop whole)
  let exponent := exponentExtent (text.drop (whole + fraction))
  if whole = 0 || fraction + exponent = 0 then 0 else whole + fraction + exponent

/-- The longest body of a string: neither a double quote nor a backslash stands in it, unless a
backslash stands before it, and no backslash stands before a line feed. -/
def bodyExtent : List Char → Nat
  | '\\' :: c :: rest => if c = '\n' then 0 else 2 + bodyExtent rest
  | c :: rest => if c = '"' || c = '\\' then 0 else 1 + bodyExtent rest
  | [] => 0

/-- A double quote, the longest body, and a double quote. -/
def closedStringExtent : List Char → Nat
  | '"' :: rest =>
    let body := bodyExtent rest
    if rest[body]? = some '"' then body + 2 else 0
  | _ => 0

/-- A double quote and the longest body. -/
def openStringExtent : List Char → Nat
  | '"' :: rest => 1 + bodyExtent rest
  | _ => 0

/-- Single quotes around one character that is neither a single quote nor a backslash, or around a
backslash and a character that is no line feed. -/
def characterExtent : List Char → Nat
  | '\'' :: '\\' :: c :: '\'' :: _ => if c = '\n' then 0 else 4
  | '\'' :: c :: '\'' :: _ => if c = '\'' || c = '\\' then 0 else 3
  | _ => 0

/-- The value of a digit of any base up to sixteen. -/
def digitValue (c : Char) : Nat :=
  if c.isDigit then c.toNat - '0'.toNat
  else if c.isUpper then c.toNat - 'A'.toNat + 10
  else c.toNat - 'a'.toNat + 10

/-- The number that digits write in a base. -/
def numeral (base : Nat) (digits : List Char) : Nat :=
  digits.foldl (fun value digit => value * base + digitValue digit) 0

/-- The number that an exponent writes after its mark. -/
def exponentValue : List Char → Int
  | '-' :: digits => -(numeral 10 digits : Int)
  | '+' :: digits => numeral 10 digits
  | digits => numeral 10 digits

/-- The decimal that a float writes: the digits around the point are one number, and each digit
after the point lowers the exponent by one. -/
def decimalOf (text : List Char) : Decimal :=
  let whole := text.takeWhile Char.isDigit
  let afterWhole := text.drop whole.length
  let fraction := (afterWhole.take (fractionExtent afterWhole)).drop 1
  let exponent := (afterWhole.drop (fractionExtent afterWhole)).drop 1
  ⟨numeral 10 (whole ++ fraction), exponentValue exponent - fraction.length⟩

end Lexeme

/-- A class of lexemes. -/
inductive LexemeClass where
  /-- The spelling of a symbol or a keyword. -/
  | spelled (kind : TokenKind)
  | endOfLine
  | boolean (value : Bool)
  | identifier
  | decimal
  | hexadecimal
  | binary
  | float
  | closedString
  | openString
  | character
  | loneQuote
  deriving DecidableEq

namespace LexemeClass

open Lexeme

/-- All classes, in the order that decides between lexemes of the same length. -/
def all : List LexemeClass :=
  TokenKind.spelled.map spelled ++
    [endOfLine, boolean true, boolean false, identifier, decimal, hexadecimal, binary, float,
      closedString, openString, character, loneQuote]

/-- The length of a spelling that begins the text. -/
def spellingExtent (spelling text : List Char) : Nat :=
  if spelling.isPrefixOf text then spelling.length else 0

/-- The spelling of a truth value. -/
def truthSpelling (value : Bool) : List Char :=
  if value then ['t', 'r', 'u', 'e'] else ['f', 'a', 'l', 's', 'e']

/-- The length of the longest prefix that the class accepts, and zero if it accepts none. -/
def extent : LexemeClass → List Char → Nat
  | spelled kind, text =>
    match kind.spelling? with
    | some spelling => spellingExtent spelling.toList text
    | none => 0
  | endOfLine, text => spellingExtent ['\n'] text
  | boolean value, text => spellingExtent (truthSpelling value) text
  | identifier, text =>
    match text with
    | c :: rest => if startsName c then 1 + run continuesName rest else 0
    | [] => 0
  | decimal, text => run Char.isDigit text
  | hexadecimal, text => basedExtent 'x' 'X' isHexDigit text
  | binary, text => basedExtent 'b' 'B' isBinaryDigit text
  | float, text => floatExtent text
  | closedString, text => closedStringExtent text
  | openString, text => openStringExtent text
  | character, text => characterExtent text
  | loneQuote, text => spellingExtent ['\''] text

/-- The terminal that an accepted lexeme writes, or what is wrong with it. -/
def read : LexemeClass → List Char → Except LexicalFault Terminal
  | spelled kind, _ => .ok ⟨kind, .none⟩
  | endOfLine, _ => .ok ⟨.endOfLine, .none⟩
  | boolean value, _ => .ok ⟨.boolean, .boolean value⟩
  | identifier, lexeme => .ok ⟨.identifier, .text (String.ofList lexeme)⟩
  | decimal, lexeme => .ok ⟨.integer, .integer (numeral 10 lexeme)⟩
  | hexadecimal, lexeme => .ok ⟨.integer, .integer (numeral 16 (lexeme.drop 2))⟩
  | binary, lexeme => .ok ⟨.integer, .integer (numeral 2 (lexeme.drop 2))⟩
  | float, lexeme =>
    let value := (decimalOf lexeme).nearest
    if value.isFinite then .ok ⟨.float, .float value⟩ else .error .invalidNumber
  | closedString, lexeme =>
    match Text.Quoted.decode (lexeme.drop 1).dropLast with
    | some text => .ok ⟨.string, .text (String.ofList text)⟩
    | none => .error .unknownEscape
  | openString, _ => .error .unterminatedString
  | character, lexeme =>
    match Text.Quoted.decode (lexeme.drop 1).dropLast with
    | some [c] => .ok ⟨.character, .character c⟩
    | some _ => .error .malformedCharacter
    | none => .error .unknownEscape
  | loneQuote, _ => .error .malformedCharacter

/-- The class of a list that accepts the longest prefix, with that length; the earliest one of
those that accept equally long prefixes. -/
def longestOf (text : List Char) : List LexemeClass → Option (LexemeClass × Nat)
  | [] => none
  | lexemeClass :: rest =>
    let length := lexemeClass.extent text
    match longestOf text rest with
    | some (other, longer) => if length < longer then some (other, longer) else
        some (lexemeClass, length)
    | none => if 0 < length then some (lexemeClass, length) else none

/-- The class that accepts the longest prefix of a text, with the length of that prefix. -/
def longest (text : List Char) : Option (LexemeClass × Nat) := longestOf text all

end LexemeClass

end Offside
