import Offside.Source.Scan

/-!
# Tokens by bytes

A lexeme is a span of the text of its file, from one byte up to another. `Token.ofSpans?` reads a
text by spans: it counts bytes, cuts the lexemes and what stands inside them out of the text, and
finds rows and columns by the bytes where lines begin. Each cut must lie between characters, each
subtraction must leave a number, and each line must exist: there are no tokens otherwise.
-/

namespace Offside

/-- The text from one byte up to another, if both are between characters of the text and the first
is not behind the second. -/
def cut? (text : String) (start stop : Nat) : Option String := do
  let first ← text.pos? ⟨start⟩
  let last ← text.pos? ⟨stop⟩
  let slice ← text.slice? first last
  return slice.copy

/-- The text without its first and its last byte. -/
def inside? (text : String) : Option String :=
  match text.utf8ByteSize with
  | 0 => none
  | size + 1 => cut? text 1 size

/-- The bytes of a text at which its lines begin, in their order. -/
structure LineIndex where
  starts : List Nat

namespace LineIndex

/-- The bytes behind the line feeds of a text that begins at a byte. -/
def startsFrom (offset : Nat) : List Char → List Nat
  | [] => []
  | c :: rest =>
    if c = '\n' then (offset + 1) :: startsFrom (offset + c.utf8Size) rest
    else startsFrom (offset + c.utf8Size) rest

/-- The lines of a text. -/
def ofText (text : String) : LineIndex := ⟨0 :: startsFrom 0 text.toList⟩

/-- The location of a byte: its line is the last of those that do not begin behind it, and its
column is one more than there are characters in that line before it. -/
def locate? (index : LineIndex) (file text : String) (offset : Nat) : Option Location :=
  match (index.starts.takeWhile (· ≤ offset)).length with
  | 0 => none
  | line + 1 => do
    let start ← index.starts[line]?
    let front ← cut? text start offset
    return .concrete file (line + 1) (front.length + 1) offset

end LineIndex

/-- The terminal that an accepted lexeme writes, or what is wrong with it, where digits behind the
mark of a base and what stands in quotes are cut out of the lexeme. -/
def LexemeClass.read? : LexemeClass → String → Option (Except LexicalFault Terminal)
  | hexadecimal, lexeme => do
    let digits ← cut? lexeme 2 lexeme.utf8ByteSize
    return .ok ⟨.integer, .integer (Lexeme.numeral 16 digits.toList)⟩
  | binary, lexeme => do
    let digits ← cut? lexeme 2 lexeme.utf8ByteSize
    return .ok ⟨.integer, .integer (Lexeme.numeral 2 digits.toList)⟩
  | closedString, lexeme => do
    let body ← inside? lexeme
    match Text.Quoted.decode body.toList with
    | some text => return .ok ⟨.string, .text (String.ofList text)⟩
    | none => return .error .unknownEscape
  | character, lexeme => do
    let body ← inside? lexeme
    match Text.Quoted.decode body.toList with
    | some [c] => return .ok ⟨.character, .character c⟩
    | some _ => return .error .malformedCharacter
    | none => return .error .unknownEscape
  | lexemeClass, lexeme => some (lexemeClass.read lexeme.toList)

namespace Token

/-- The terminal of the lexeme that begins at a byte of a text, where the characters `rest` stand,
and the number of its characters, or what is wrong with the lexeme and the characters at fault. -/
def frontSpan? (text : String) (offset : Nat) (rest : List Char) :
    Option (Except (LexicalFault × String) (Terminal × Nat)) :=
  match LexemeClass.longest rest with
  | none => do
    let snippet ← cut? text offset (offset + (String.ofList (rest.take 1)).utf8ByteSize)
    return .error (.unexpectedCharacter, snippet)
  | some (lexemeClass, length) => do
    let lexeme ← cut? text offset (offset + (String.ofList (rest.take length)).utf8ByteSize)
    match ← lexemeClass.read? lexeme with
    | .error fault => return .error (fault, lexeme)
    | .ok terminal => return .ok (terminal, length)

/-- The tokens of a text from a byte on, of which the first `pending` characters belong to a lexeme
that has been read already. -/
def scanSpans? (file text : String) (index : LineIndex) :
    (pending offset : Nat) → List Char → Option (Except LexicalError (List Token))
  | _, _, [] => do
    let location ← index.locate? file text text.utf8ByteSize
    return .ok [⟨⟨.endOfInput, .none⟩, location⟩]
  | pending + 1, offset, c :: rest =>
    scanSpans? file text index pending (offset + c.utf8Size) rest
  | 0, offset, c :: rest =>
    if isBlank c then scanSpans? file text index 0 (offset + c.utf8Size) rest
    else do
      let location ← index.locate? file text offset
      match ← frontSpan? text offset (c :: rest) with
      | .error (fault, snippet) => return .error ⟨location, fault, snippet⟩
      | .ok (terminal, length) =>
        match ← scanSpans? file text index (length - 1) (offset + c.utf8Size) rest with
        | .error error => return .error error
        | .ok later => return .ok (⟨terminal, location⟩ :: later)

/-- The tokens of the text of a file, read by spans. -/
def ofSpans? (file text : String) : Option (Except LexicalError (List Token)) :=
  scanSpans? file text (.ofText text) 0 0 text.toList

end Token

end Offside
