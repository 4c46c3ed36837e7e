import Offside.Proofs.Source.Columns

/-!
# Rows of neighbouring tokens

Only a line feed leaves the row, and it is a lexeme. So whatever follows an open parenthesis stands
on its row, be it a line end (`Token.keepsRow_of_scan`).
-/

namespace Offside

/-- A character that is no line feed leaves the place on its row. -/
theorem Place.row_after {c : Char} (place : Place) (h : c ≠ '\n') :
    (place.after c).row = place.row := by
  simp [Place.after, h]

namespace Token

variable {file : String} {pending : Nat} {place : Place} {text : List Char} {tokens : List Token}

/-- Whatever follows the one token stands on its row if it opens a parenthesis. -/
def KeepsRow (token next : Token) : Prop :=
  token.kind = .leftParen → next.location.row? = token.location.row?

private theorem row_of_scan (h : scan file 0 place text = .ok tokens) :
    ∀ token ∈ tokens.head?, token.location.row? = some place.row := by
  induction text generalizing place with
  | nil =>
    rw [scan_nil] at h
    cases h
    rintro _ ⟨⟩
    rfl
  | cons c rest ih =>
    obtain ⟨hblank, h⟩ | ⟨_, _, _, _, -, -, -, rfl⟩ := scan_cases h
    · have hc : c ≠ '\n' := by
        rintro rfl
        cases hblank
      intro token htoken
      rw [ih h token htoken, place.row_after hc]
    · rintro _ ⟨⟩
      rfl

/-- In the tokens of a text, what follows an open parenthesis stands on its row. -/
theorem keepsRow_of_scan (h : scan file pending place text = .ok tokens) :
    tokens.IsChain KeepsRow := by
  induction text generalizing pending place tokens with
  | nil =>
    rw [scan_nil] at h
    cases h
    exact List.isChain_singleton _
  | cons c rest ih =>
    cases pending with
    | succ pending => exact ih h
    | zero =>
      obtain ⟨-, h⟩ | ⟨_, _, _, later, hlongest, hread, hlater, rfl⟩ := scan_cases h
      · exact ih h
      · refine List.isChain_cons.2 ⟨fun next hnext hkind ↦ ?_, ih hlater⟩
        obtain ⟨rfl, rfl⟩ := LexemeClass.eq_of_leftParen hlongest hread hkind
        rw [row_of_scan hlater next hnext, place.row_after (by decide)]
        rfl

end Token

end Offside
