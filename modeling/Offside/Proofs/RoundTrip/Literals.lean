import Offside.Proofs.Canonical.Trimming

/-!
# Reading canonical literals

The canonical text of a string, a character or a natural number keeps to its line, and it is scanned
as one token that carries the value again, on its own and before whatever may stand directly behind
it (`Literal.ofSource_text_terminal`).
-/

namespace Offside

open Canonical Edge

/-- The value of a literal that is a string, a character or an integer. -/
inductive Literal where
  | string (value : String)
  | character (value : Char)
  | integer (value : Nat)
  deriving DecidableEq

namespace Literal

/-- The terminal that carries the value. -/
def terminal : Literal → Terminal
  | string value => ⟨.string, .text value⟩
  | character value => ⟨.character, .character value⟩
  | integer value => ⟨.integer, .integer value⟩

/-- The literal as an expression. -/
def expression (location : Location) : Literal → Expression
  | string value => .string location value
  | character value => .character location value
  | integer value => .integer location value

/-- How the value is written: with escapes between quotes, or in decimal digits. -/
def spelling : Literal → List Char
  | string value => '"' :: Text.Quoted.encode '"' value.toList ++ ['"']
  | character value => '\'' :: Text.Quoted.encode '\'' [value] ++ ['\'']
  | integer value => Nat.toDigits 10 value

/-- The text that writes the value. -/
def text (literal : Literal) : String := String.ofList literal.spelling

/-- The characters of which any may stand directly behind a literal. -/
def delimiters : List Char := [' ', '\n', ',', ')', ']', '\x7d', ':']

/-- The literal may stand directly before the text: a delimiter comes first or, behind an integer, a
period and a name. -/
inductive StandsBefore : Literal → List Char → Prop where
  | delimiter {literal : Literal} {c : Char} {rest : List Char} : c ∈ delimiters →
      StandsBefore literal (c :: rest)
  | property {value : Nat} {c : Char} {rest : List Char} : Lexeme.startsName c = true →
      StandsBefore (integer value) ('.' :: c :: rest)

/-! ### The terminal of a literal -/

private theorem legible : (literal : Literal) → literal.terminal.Legible
  | string value => .string value
  | character value => .character value
  | integer value => .integer value

private theorem spelling_terminal : (literal : Literal) → literal.terminal.spelling =
    literal.spelling
  | string _ | character _ => rfl
  | integer value => Terminal.spelling_integer value

-- No literal is a sign that could be part of a longer one.
private theorem extension_terminal (literal : Literal) :
    (LexemeClass.spelled literal.terminal.kind).extension? = none := by
  cases literal <;> rfl

private theorem not_continues_of_delimiter {c : Char} (hc : c ∈ delimiters) :
    Lexeme.continuesName c = false ∧ c ≠ '.' := by
  have hall : delimiters.all (fun c ↦ !Lexeme.continuesName c && c != '.') = true := by decide
  simpa using List.all_eq_true.1 hall c hc

private theorem StandsBefore.clearOf {literal : Literal} {tail : List Char}
    (h : literal.StandsBefore tail) : literal.terminal.ClearOf tail := by
  have hextension (x : Char)
      (hx : (LexemeClass.spelled literal.terminal.kind).extension? = some x) :
      tail.head? ≠ some x := by
    rw [extension_terminal] at hx
    cases hx
  cases h with
  | delimiter hc =>
    obtain ⟨hname, hperiod⟩ := not_continues_of_delimiter hc
    refine ⟨fun _ x hx ↦ ?_, fun _ y rest heq ↦ ?_, hextension⟩
    · cases hx
      exact hname
    · exact absurd (List.cons.inj heq).1 hperiod
  | property hc =>
    refine ⟨fun _ x hx ↦ ?_, fun _ y rest heq ↦ ?_, hextension⟩
    · cases hx
      decide
    · cases heq
      exact LexemeClass.isDigit_of_startsName hc

/-! ### The text of a literal -/

/-- The canonical source of a literal is its text. -/
theorem text_expression (literal : Literal) (location : Location) :
    (literal.expression location).text = literal.text := by
  have hpieces : (literal.expression location).pieces Precedence.loosest.rank =
      [.terminal literal.terminal] := by
    cases literal <;> (unfold expression; rw [Expression.pieces]; rfl)
  have hlays : Lays Opens Shut [.terminal literal.terminal] :=
    lays_leaf literal.legible (by cases literal <;> rfl) (by cases literal <;> rfl)
  have hrender : render [.terminal literal.terminal] = literal.spelling := by
    rw [← literal.spelling_terminal]
    simp [render, renderFrom, placed, indentation]
  rw [Expression.text, hpieces, hlays.renderTrimmed, hrender, text]

/-- A literal is printed as its text, which has no line feed in it. The text is scanned as one token
with the value of the literal: on its own with the end of the input behind it, and before anything
that the literal may stand before with what is scanned of that, be it tokens or an error. -/
theorem ofSource_text_terminal (literal : Literal) (location : Location) (file : String) :
    (literal.expression location).text = literal.text ∧ '\n' ∉ literal.text.toList ∧
      Token.ofSource file literal.text =
        .ok [⟨literal.terminal, Place.start.inFile file⟩,
          ⟨⟨.endOfInput, .none⟩, (Place.behind literal.text.toList).inFile file⟩] ∧
      ∀ tail : String, literal.StandsBefore tail.toList →
        Token.ofSource file (literal.text ++ tail) =
          (Token.scan file 0 (.behind literal.text.toList) tail.toList).map
            (⟨literal.terminal, Place.start.inFile file⟩ :: ·) := by
  have hlegible := literal.legible
  have htext : literal.text = String.ofList literal.terminal.spelling := by
    rw [literal.spelling_terminal, text]
  refine ⟨literal.text_expression location, ?_⟩
  rw [htext, String.toList_ofList]
  refine ⟨hlegible.lineFeed_not_mem, hlegible.ofSource file, fun tail htail ↦ ?_⟩
  rw [← hlegible.ofSource_append htail.clearOf file, String.ofList_append, String.ofList_toList]

/-- A string that ends with a backslash ends at its quote, and a comma and a name follow. -/
theorem ofSource_text_terminal_backslash :
    (string "a\\").StandsBefore ", b".toList ∧
      Token.ofSource "f" ((string "a\\").text ++ ", b") =
        .ok [⟨⟨.string, .text "a\\"⟩, .concrete "f" 1 1 0⟩, ⟨⟨.comma, .none⟩, .concrete "f" 1 6 5⟩,
          ⟨⟨.identifier, .text "b"⟩, .concrete "f" 1 8 7⟩,
          ⟨⟨.endOfInput, .none⟩, .concrete "f" 1 9 8⟩] := by
  have hstands : (string "a\\").StandsBefore ", b".toList :=
    show StandsBefore _ (',' :: " b".toList) from .delimiter (by decide)
  obtain ⟨-, -, -, hread⟩ := ofSource_text_terminal (string "a\\") default "f"
  refine ⟨hstands, ?_⟩
  rw [hread _ hstands]
  decide +kernel

/-- A quote and a line feed in a string are written with a backslash. -/
example : (string "\"\n'").text = "\"\\\"\\n'\"" := by decide

end Literal

end Offside
