import Offside.Proofs.Canonical.Rendering
import Offside.Proofs.Canonical.Tidiness
import Offside.Proofs.Source.Spelling

/-!
# Canonical source without line feeds at its end

The text of pieces that end behind a terminal ends with no line feed, so that nothing is trimmed
from it (`Lays.renderTrimmed`), and it is scanned as the tokens that the pieces write
(`Lays.ofSource_renderTrimmed`).
-/

namespace Offside.Canonical

open Packrat Edge

/-- The text of pieces goes on with the text of further pieces from the place behind. -/
theorem renderFrom_append (spot : Spot) (pieces more : List Piece) :
    renderFrom spot.level (spot.edge = .fresh) (pieces ++ more) =
      renderFrom spot.level (spot.edge = .fresh) pieces ++
        renderFrom (spot.after pieces).level ((spot.after pieces).edge = .fresh) more := by
  induction pieces generalizing spot with
  | nil => rfl
  | cons piece pieces ih =>
    have hpieces := ih (piece.after spot)
    rw [Spot.after_cons]
    cases piece with
    | terminal written =>
      simp only [List.cons_append, renderFrom, List.append_assoc]
      exact congrArg _ hpieces
    | space =>
      simp only [List.cons_append, renderFrom, List.append_assoc]
      exact congrArg _ hpieces
    | newline =>
      simp only [List.cons_append, renderFrom]
      exact congrArg _ hpieces
    | endLine =>
      simp only [List.cons_append, renderFrom]
      split
      · exact hpieces
      · exact congrArg _ hpieces
    | indent => exact hpieces
    | dedent => exact hpieces

private theorem placed_eq (level : Nat) (fresh : Bool) (text : List Char) :
    placed level fresh text = (if fresh then indentation level else []) ++ text := by
  unfold placed
  split <;> rfl

/-- The text of tidy pieces that end behind a terminal ends with no line feed. -/
theorem getLast?_renderFrom_ne {spot : Spot} {pieces : List Piece} {kind : TokenKind}
    (h : Tidy spot pieces) (hedge : (spot.after pieces).edge = .behind kind) :
    (renderFrom spot.level (spot.edge = .fresh) pieces).getLast? ≠ some '\n' := by
  obtain rfl | ⟨front, last, rfl⟩ := pieces.eq_nil_or_concat
  · exact (Option.some_ne_none _).symm
  · rw [List.concat_eq_append] at *
    obtain ⟨-, hfits, -⟩ := (tidy_append ..).1 h
    rw [Spot.after_append] at hedge
    cases last with
    | terminal written =>
      have hne : written.spelling ≠ [] := by
        obtain ⟨x, rest, hform, -⟩ := hfits.1.begins
        rw [hform]
        exact List.cons_ne_nil _ _
      rw [renderFrom_append, renderFrom, renderFrom, List.append_nil, placed_eq,
        ← List.append_assoc, List.getLast?_append_of_ne_nil _ hne]
      exact fun hlast ↦ hfits.1.lineFeed_not_mem (List.mem_of_getLast? hlast)
    | space | newline | endLine => cases hedge
    | indent | dedent =>
      have hfresh : (spot.after front).edge = .fresh := hfits
      cases hfresh.symm.trans hedge

variable {pieces : List Piece}

/-- Nothing is trimmed from the text of what closes. -/
theorem Lays.renderTrimmed (h : Lays Opens Shut pieces) :
    renderTrimmed pieces = render pieces := by
  obtain ⟨kind, hedge, -⟩ := h.edge ⟨0, .fresh⟩
  have hlast : (render pieces).getLast? ≠ some '\n' :=
    getLast?_renderFrom_ne (h.tidy ⟨0, .fresh⟩ opens_fresh) hedge
  rw [← List.head?_reverse] at hlast
  have hkept : (render pieces).reverse.dropWhile (· = '\n') = (render pieces).reverse := by
    cases hform : (render pieces).reverse with
    | nil => rfl
    | cons x rest =>
      rw [hform, List.head?_cons, ne_eq, Option.some_inj] at hlast
      exact List.dropWhile_cons_of_neg (by simp [hlast])
  rw [Canonical.renderTrimmed, hkept, List.reverse_reverse]

/-- The text of what closes is scanned as the tokens that the pieces write, and the end of the
input. -/
theorem Lays.ofSource_renderTrimmed (h : Lays Opens Shut pieces) (file : String) :
    ∃ tokens next last, Token.ofSource file (String.ofList (Canonical.renderTrimmed pieces)) =
        .ok tokens ∧
      Writes ⟨0, .fresh⟩ pieces ⟨false, tokens⟩ next ∧ next.tokens = [last] ∧
      last.kind = .endOfInput := by
  obtain ⟨tokens, next, last, hscan, hwrites, hnext, hlast, -⟩ :=
    @scan_renderFrom file _ _ .start (h.tidy ⟨0, .fresh⟩ opens_fresh) (fun _ ↦ rfl) false
  refine ⟨tokens, next, last, ?_, hwrites, hnext, hlast⟩
  rw [Token.ofSource, String.toList_ofList, h.renderTrimmed]
  exact hscan

end Offside.Canonical
