import Offside.Proofs.Source.Front

/-!
# What tokens carry

The kind of a token fixes what it carries (`TokenKind.Carries`): a name and a string carry a text, a
literal of another kind a value of its kind, and all others carry nothing. Every lexeme is read so
(`LexemeClass.carries_of_read`), and so is every token of a source (`Token.carries_of_ofSource`).
-/

namespace Offside

/-- The payload is what a token of the kind carries. -/
def TokenKind.Carries (kind : TokenKind) (payload : Payload) : Prop :=
  match kind with
  | .identifier | .string => ∃ value, payload = .text value
  | .integer => ∃ value, payload = .integer value
  | .float => ∃ value, payload = .float value
  | .boolean => ∃ value, payload = .boolean value
  | .character => ∃ value, payload = .character value
  | _ => payload = .none

/-- A kind with one spelling carries nothing. -/
theorem TokenKind.carries_none {kind : TokenKind} (h : kind.spelling? ≠ none) :
    kind.Carries .none := by
  cases kind with
  | identifier | string | integer | float | boolean | character => exact absurd rfl h
  | _ => rfl

/-- What a lexeme is read as carries what its kind says. -/
theorem LexemeClass.carries_of_read {lexemeClass : LexemeClass} {lexeme : List Char}
    {terminal : Terminal} (h : lexeme ∈ lexemeClass.pattern)
    (hread : lexemeClass.read lexeme = .ok terminal) : terminal.kind.Carries terminal.payload := by
  cases lexemeClass with
  | spelled kind =>
    cases hread
    exact TokenKind.carries_none fun hnone ↦ kind_ne_of_mem_pattern h hnone rfl
  | endOfLine =>
    cases hread
    rfl
  | boolean | identifier | decimal | hexadecimal | binary =>
    cases hread
    exact ⟨_, rfl⟩
  | float =>
    simp only [read] at hread
    split at hread <;> cases hread
    exact ⟨_, rfl⟩
  | closedString | character =>
    simp only [read] at hread
    split at hread <;> cases hread
    exact ⟨_, rfl⟩
  | openString | loneQuote => cases hread

namespace Token

variable {file source : String} {tokens : List Token}

private theorem carries_of_scan {pending : Nat} {place : Place} {text : List Char}
    (h : scan file pending place text = .ok tokens) :
    ∀ token ∈ tokens, token.kind.Carries token.payload := by
  induction text generalizing pending place tokens with
  | nil =>
    rw [scan_nil] at h
    cases h
    exact List.forall_mem_singleton.2 rfl
  | cons c rest ih =>
    cases pending with
    | succ pending => exact ih h
    | zero =>
      obtain ⟨-, h⟩ | ⟨_, _, _, later, hlongest, hread, hlater, rfl⟩ := scan_cases h
      · exact ih h
      · have hmem := (begins_of_longest hlongest).2.2
        exact List.forall_mem_cons.2 ⟨LexemeClass.carries_of_read hmem hread, ih hlater⟩

/-- The tokens of a source carry what their kinds say. -/
theorem carries_of_ofSource (h : ofSource file source = .ok tokens) :
    ∀ token ∈ tokens, token.kind.Carries token.payload :=
  carries_of_scan h

end Token

end Offside
