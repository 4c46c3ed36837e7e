import Offside.Proofs.Grammar.Derivation

/-!
# Where derived trees stand

A tree that the grammar derives from a row of tokens is located at one of them: at the first one,
but for parentheses, which leave no trace.
-/

namespace Offside.Derivation

open Packrat

/-- The location is that of one of the tokens. -/
def StandsIn (location : Location) (tokens : List Token) : Prop :=
  ∃ token ∈ tokens, location = token.location

private theorem StandsIn.head (token : Token) (rest : List Token) :
    StandsIn token.location (token :: rest) := ⟨token, List.mem_cons_self, rfl⟩

private theorem StandsIn.append {location : Location} {tokens : List Token}
    (h : StandsIn location tokens)
    (rest : List Token) : StandsIn location (tokens ++ rest) := by
  obtain ⟨token, htoken, rfl⟩ := h
  exact ⟨token, List.mem_append_left _ htoken, rfl⟩

private theorem StandsIn.cons {location : Location} {tokens : List Token}
    (h : StandsIn location tokens)
    (token : Token) : StandsIn location (token :: tokens) := by
  obtain ⟨other, hother, rfl⟩ := h
  exact ⟨other, List.mem_cons_of_mem _ hother, rfl⟩

/-- A pattern stands where its tokens do. -/
theorem IsPattern.standsIn {tokens : List Token} {pattern : Pattern}
    (h : IsPattern tokens pattern) :
    StandsIn pattern.location tokens := by
  cases h <;> apply StandsIn.head

private theorem IsPath.standsIn {tokens : List Token} {path : Path} (h : IsPath tokens path) :
    StandsIn path.location tokens := by
  induction h with
  | name => apply StandsIn.head
  | property _ _ _ ih => exact ih.append _

private theorem IsExpression.standsIn {place : Place} {tokens : List Token} {value : Expression} :
    IsExpression place tokens value → StandsIn value.location tokens
  | .conditional h | .application h | .receiver h | .operand h | .unsigned h | .atom h => h.standsIn
  | .send h _ _ | .chained _ _ h _ _ _ | .single _ _ h _ _ _ | .property h _ _ _ =>
    h.standsIn.append _
  | .grouped _ h _ => (h.standsIn.append _).cons _
  | .branches .. | .signed .. | .block .. | .create .. | .message .. | .tuple .. | .list ..
  | .name .. | .string .. | .integer .. | .float .. | .boolean .. | .character .. => .head ..

/-- A statement stands where its tokens do. -/
theorem IsStatement.standsIn {tokens : List Token} {statement : Statement}
    (h : IsStatement tokens statement) : StandsIn statement.location tokens := by
  cases h with
  | bind | forEach | loop => apply StandsIn.head
  | assign hpath => exact (hpath.standsIn.append _).append _
  | expression hvalue => exact hvalue.standsIn.append _

/-- A declared thing stands where its tokens do. -/
theorem IsItem.standsIn {tokens : List Token} {item : StructItem} (h : IsItem tokens item) :
    StandsIn item.location tokens := by
  cases h with
  | member h =>
    cases h
    apply StandsIn.head
  | handler h =>
    cases h
    apply StandsIn.head

end Offside.Derivation
