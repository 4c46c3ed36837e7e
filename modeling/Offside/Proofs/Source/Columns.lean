import Mathlib.Data.List.Chain
import Offside.Proofs.Source.Lexeme
import Offside.Proofs.Source.Scan

/-!
# Columns of neighbouring tokens

A parenthesis is a lexeme of one character, and blanks do not leave the row. So the token behind an
open parenthesis stands right of it, be it a line end (`Token.isChain_of_ofSource`).
-/

namespace Offside

/-- The location is in a column no earlier than the given one. -/
def Location.IsFrom (location : Location) (column : Nat) : Prop :=
  ∃ own, location.column? = some own ∧ column ≤ own

/-- A location from a column on is one from any smaller column on. -/
theorem Location.IsFrom.mono {location : Location} {column other : Nat}
    (h : location.IsFrom column) (hle : other ≤ column) : location.IsFrom other := by
  obtain ⟨own, hown, hcolumn⟩ := h
  exact ⟨own, hown, Nat.le_trans hle hcolumn⟩

/-- A character that is no line feed moves the place along its row. -/
theorem Place.column_after {c : Char} (place : Place) (h : c ≠ '\n') :
    (place.after c).column = place.column + 1 := by
  simp [Place.after, h]

namespace LexemeClass

/-- Only the one character that spells it is read as an open parenthesis. -/
theorem eq_of_leftParen {c : Char} {rest : List Char} {lexemeClass : LexemeClass}
    {length : Nat} {terminal : Terminal}
    (h : longest (c :: rest) = some (lexemeClass, length))
    (hread : lexemeClass.read ((c :: rest).take length) = .ok terminal)
    (hkind : terminal.kind = .leftParen) : c = '(' ∧ length = 1 := by
  obtain ⟨-, hextent, hpos⟩ := mem_of_longestOf h
  cases lexemeClass with
  | spelled kind =>
    cases hread
    dsimp only at hkind
    subst hkind
    have hspelling : fixed? (.spelled .leftParen) = some ['('] := rfl
    rw [extent_of_fixed hspelling, spellingExtent] at hextent
    split at hextent
    · next hfront =>
      simp only [List.isPrefixOf_cons_cons, Bool.and_eq_true, beq_iff_eq] at hfront
      exact ⟨hfront.1.symm, hextent.symm⟩
    · omega
  | endOfLine | boolean | identifier | decimal | hexadecimal | binary =>
    cases hread
    cases hkind
  | openString | loneQuote => cases hread
  | float | closedString | character =>
    simp only [read] at hread
    split at hread <;> cases hread
    cases hkind

end LexemeClass

namespace Token

variable {file : String} {pending : Nat} {place : Place} {text : List Char} {tokens : List Token}

/-- Whatever follows the one token stands right of it if it opens a parenthesis. -/
def Opens (token next : Token) : Prop :=
  token.kind = .leftParen →
    ∃ column, token.location.column? = some column ∧ next.location.IsFrom (column + 1)

private theorem isFrom_of_scan (h : scan file 0 place text = .ok tokens) :
    ∀ token ∈ tokens.head?, token.location.IsFrom place.column := by
  induction text generalizing place with
  | nil =>
    rw [scan_nil] at h
    cases h
    rintro _ ⟨⟩
    exact ⟨_, rfl, Nat.le_refl _⟩
  | cons c rest ih =>
    obtain ⟨hblank, h⟩ | ⟨_, _, _, _, -, -, -, rfl⟩ := scan_cases h
    · have hc : c ≠ '\n' := by
        rintro rfl
        cases hblank
      intro token htoken
      refine (ih h token htoken).mono ?_
      rw [place.column_after hc]
      exact Nat.le_succ _
    · rintro _ ⟨⟩
      exact ⟨_, rfl, Nat.le_refl _⟩

/-- In the tokens of a text, what follows an open parenthesis stands right of it. -/
theorem isChain_of_scan (h : scan file pending place text = .ok tokens) : tokens.IsChain Opens := by
  induction text generalizing pending place tokens with
  | nil =>
    rw [scan_nil] at h
    cases h
    exact List.isChain_singleton _
  | cons c rest ih =>
    cases pending with
    | succ pending => exact ih h
    | zero =>
      obtain ⟨-, h⟩ | ⟨_, _, _, later, hlongest, hread, hlater, rfl⟩ := scan_cases h
      · exact ih h
      · refine List.isChain_cons.2 ⟨fun next hnext hkind ↦ ?_, ih hlater⟩
        obtain ⟨rfl, rfl⟩ := LexemeClass.eq_of_leftParen hlongest hread hkind
        have hfrom := isFrom_of_scan hlater next hnext
        rw [place.column_after (by decide)] at hfrom
        exact ⟨place.column, rfl, hfrom⟩

/-- In the tokens of a source text, what follows an open parenthesis stands right of it. -/
theorem isChain_of_ofSource {source : String} (h : ofSource file source = .ok tokens) :
    tokens.IsChain Opens :=
  isChain_of_scan h

end Token

end Offside
