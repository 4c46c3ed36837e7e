import Offside.Canonical.Layout
import Offside.Proofs.Packrat.Reading
import Offside.Proofs.Source.Legible

/-!
# The tokens of canonical source

A `Spot` is a place in canonical source: the level of indentation and what stands directly before.
Pieces are tidy from a spot on if no two of their terminals cling to each other and no blank begins
a line (`Tidy`); pieces write the tokens between two views if these are their terminals, each that
begins a line in the column of its level (`Writes`). Where pieces end a line, more line ends than
one do not matter (`Writes.absorb`).
-/

namespace Offside.Canonical

open Packrat

/-- What stands directly before a place. -/
inductive Edge where
  /-- Nothing is written on the line so far. -/
  | fresh
  | spaced
  | behind (kind : TokenKind)
  deriving DecidableEq

/-- A place in canonical source. -/
structure Spot where
  level : Nat
  edge : Edge

/-- The column of what begins a line. -/
def Spot.column (spot : Spot) : Nat := 2 * spot.level + 1

/-- The place behind a piece. -/
def Piece.after (spot : Spot) : Piece → Spot
  | .terminal written => ⟨spot.level, .behind written.kind⟩
  | .space => ⟨spot.level, .spaced⟩
  | .newline | .endLine => ⟨spot.level, .fresh⟩
  | .indent => ⟨spot.level + 1, spot.edge⟩
  | .dedent => ⟨spot.level - 1, spot.edge⟩

/-- The place behind pieces. -/
def Spot.after (spot : Spot) (pieces : List Piece) : Spot := pieces.foldl Piece.after spot

/-- Nothing written leaves the spot as it is. -/
@[simp] theorem Spot.after_nil (spot : Spot) : spot.after [] = spot := rfl

/-- Pieces move a spot one after the other. -/
@[simp] theorem Spot.after_cons (spot : Spot) (piece : Piece) (pieces : List Piece) :
    spot.after (piece :: pieces) = (piece.after spot).after pieces := rfl

/-- Two rows of pieces move a spot one after the other. -/
@[simp] theorem Spot.after_append (spot : Spot) (pieces more : List Piece) :
    spot.after (pieces ++ more) = (spot.after pieces).after more := List.foldl_append

/-! ### Tidy pieces -/

/-- A terminal of the kind may stand directly behind. -/
def Edge.Admits (edge : Edge) (kind : TokenKind) : Prop :=
  match edge with
  | .behind before => before.clings kind = false
  | _ => True

/-- The piece may stand at the place. -/
def Piece.Fits (spot : Spot) : Piece → Prop
  | .terminal written => written.Legible ∧ spot.edge.Admits written.kind
  | .space => ∃ kind, spot.edge = .behind kind
  | .newline | .endLine => spot.edge ≠ .spaced
  | .indent | .dedent => spot.edge = .fresh

/-- The pieces may stand one behind the other. -/
def Tidy (spot : Spot) : List Piece → Prop
  | [] => True
  | piece :: pieces => piece.Fits spot ∧ Tidy (piece.after spot) pieces

/-- Nothing is tidy everywhere. -/
@[simp] theorem tidy_nil (spot : Spot) : Tidy spot [] := trivial

/-- Pieces are tidy if the first fits where it stands and the others are tidy behind it. -/
@[simp] theorem tidy_cons (spot : Spot) (piece : Piece) (pieces : List Piece) :
    Tidy spot (piece :: pieces) ↔ piece.Fits spot ∧ Tidy (piece.after spot) pieces := .rfl

/-- Two rows of pieces are tidy if the second is tidy where the first ends. -/
@[simp] theorem tidy_append (spot : Spot) (pieces more : List Piece) :
    Tidy spot (pieces ++ more) ↔ Tidy spot pieces ∧ Tidy (spot.after pieces) more := by
  induction pieces generalizing spot with
  | nil => simp
  | cons piece pieces ih => simp [ih, and_assoc]

/-! ### Written pieces -/

/-- The tokens that a piece writes; a line may end more than once. -/
inductive Piece.Writes (spot : Spot) : Piece → View → View → Prop where
  | terminal {written : Terminal} {ended : Bool} {token : Token} {rest : List Token} :
      token.toTerminal = written → token.location.isGenerated = false →
      (spot.edge = .fresh → token.location.column? = some spot.column) →
      Writes spot (.terminal written) ⟨ended, token :: rest⟩ (.behind token rest)
  | newline {view next : View} : view.Breaks next → Writes spot .newline view next
  | endLine {view next : View} : spot.edge ≠ .fresh → view.Breaks next →
      Writes spot .endLine view next
  | endLineFresh {view : View} : spot.edge = .fresh → Writes spot .endLine view view
  | space {view : View} : Writes spot .space view view
  | indent {view : View} : Writes spot .indent view view
  | dedent {view : View} : Writes spot .dedent view view

/-- The tokens that pieces write. -/
def Writes (spot : Spot) : List Piece → View → View → Prop
  | [], view, next => next = view
  | piece :: pieces, view, next =>
    ∃ middle, piece.Writes spot view middle ∧ Writes (piece.after spot) pieces middle next

/-- Two rows of pieces are written one behind the other. -/
theorem writes_append {spot : Spot} {pieces more : List Piece} {view next : View} :
    Writes spot (pieces ++ more) view next ↔
      ∃ middle, Writes spot pieces view middle ∧ Writes (spot.after pieces) more middle next := by
  induction pieces generalizing spot view with
  | nil =>
    constructor
    · exact fun h ↦ ⟨view, rfl, h⟩
    · rintro ⟨_, rfl, h⟩
      exact h
  | cons piece pieces ih =>
    simp only [List.cons_append, Writes, ih, Spot.after_cons]
    constructor
    · rintro ⟨middle, hpiece, later, hpieces, hmore⟩
      exact ⟨later, ⟨middle, hpiece, hpieces⟩, hmore⟩
    · rintro ⟨later, ⟨middle, hpiece, hpieces⟩, hmore⟩
      exact ⟨middle, hpiece, later, hpieces, hmore⟩

/-- The kind of the terminal that pieces begin with. -/
def leading? : List Piece → Option TokenKind
  | .terminal written :: _ => some written.kind
  | _ => none

/-- What follows does not change how pieces begin. -/
theorem leading?_append {pieces : List Piece} {kind : TokenKind} (h : leading? pieces = some kind)
    (more : List Piece) : leading? (pieces ++ more) = some kind := by
  unfold leading? at h
  split at h
  · exact h
  · cases h

/-- Whether a line has ended at an edge. -/
def Edge.Ends (edge : Edge) (ended : Bool) : Prop :=
  match edge with
  | .fresh => ended = true
  | .spaced => True
  | .behind kind => ended = decide (kind = .endOfLine)

section Written

variable {spot : Spot} {piece : Piece} {pieces : List Piece} {view next last : View}

private theorem Piece.Writes.length_le (h : piece.Writes spot view next) :
    next.tokens.length ≤ view.tokens.length := by
  cases h with
  | terminal => exact Nat.le_succ _
  | newline h | endLine _ h => exact Nat.le_of_lt h.length_lt
  | endLineFresh | space | indent | dedent => exact Nat.le_refl _

private theorem Piece.Writes.ends (h : piece.Writes spot view next)
    (hedge : spot.edge.Ends view.ended) :
    (piece.after spot).edge.Ends next.ended := by
  cases h with
  | terminal hwritten =>
    subst hwritten
    rfl
  | newline h | endLine _ h => exact h.ended
  | endLineFresh hfresh =>
    rw [hfresh] at hedge
    exact hedge
  | space => trivial
  | indent | dedent => exact hedge

namespace Writes

/-- Writing passes tokens and adds none. -/
theorem length_le (h : Writes spot pieces view next) :
    next.tokens.length ≤ view.tokens.length := by
  induction pieces generalizing spot view with
  | nil =>
    cases h
    exact Nat.le_refl _
  | cons piece pieces ih =>
    obtain ⟨middle, hpiece, hpieces⟩ := h
    exact Nat.le_trans (ih hpieces) hpiece.length_le

/-- Whether a line has ended behind pieces shows at the edge. -/
theorem ends (h : Writes spot pieces view next) (hedge : spot.edge.Ends view.ended) :
    (spot.after pieces).edge.Ends next.ended := by
  induction pieces generalizing spot view with
  | nil =>
    cases h
    exact hedge
  | cons piece pieces ih =>
    obtain ⟨middle, hpiece, hpieces⟩ := h
    exact ih hpieces (hpiece.ends hedge)

/-- What pieces that begin with a terminal write begins with its token. -/
theorem head {kind : TokenKind} (h : Writes spot pieces view next)
    (hleading : leading? pieces = some kind) :
    view.ahead = kind ∧ next.tokens.length < view.tokens.length ∧
      (spot.edge = .fresh → view.column? = some spot.column) ∧
      (spot.after pieces).edge.Ends next.ended := by
  unfold leading? at hleading
  split at hleading
  · cases hleading
    obtain ⟨middle, hpiece, hpieces⟩ := h
    cases hpiece with
    | terminal hwritten _ hcolumn =>
      subst hwritten
      exact ⟨rfl, Nat.lt_succ_of_le hpieces.length_le, hcolumn, hpieces.ends rfl⟩
  · cases hleading

private theorem of_length_eq (h : Writes spot pieces view next)
    (hlength : next.tokens.length = view.tokens.length) (hfresh : (spot.after pieces).edge = .fresh)
    (other : View) : next = view ∧ spot.edge = .fresh ∧ Writes spot pieces other other := by
  induction pieces generalizing spot view with
  | nil => exact ⟨h, hfresh, rfl⟩
  | cons piece pieces ih =>
    obtain ⟨middle, hpiece, hpieces⟩ := h
    have hle := hpiece.length_le
    have hle' := hpieces.length_le
    obtain ⟨rfl, hedge, hother⟩ := ih hpieces (by omega) hfresh
    cases hpiece with
    | terminal => cases hedge
    | space => cases hedge
    | newline hbreaks | endLine _ hbreaks =>
      have hlt := hbreaks.length_lt
      omega
    | endLineFresh hspot => exact ⟨rfl, hspot, other, .endLineFresh hspot, hother⟩
    | indent => exact ⟨rfl, hedge, other, .indent, hother⟩
    | dedent => exact ⟨rfl, hedge, other, .dedent, hother⟩

/-- Line ends behind pieces that end a line belong to these pieces. -/
theorem absorb (h : Writes spot pieces view next)
    (hlt : next.tokens.length < view.tokens.length) (hfresh : (spot.after pieces).edge = .fresh)
    (hskips : next.Skips last) : Writes spot pieces view last := by
  induction pieces generalizing spot view with
  | nil =>
    cases h
    exact absurd hlt (Nat.lt_irrefl _)
  | cons piece pieces ih =>
    obtain ⟨middle, hpiece, hpieces⟩ := h
    by_cases hmiddle : next.tokens.length < middle.tokens.length
    · exact ⟨middle, hpiece, ih hpieces hmiddle hfresh⟩
    · -- The piece is the last one that writes anything.
      have hle := hpieces.length_le
      obtain ⟨rfl, hedge, hnothing⟩ := hpieces.of_length_eq (by omega) hfresh last
      refine ⟨last, ?_, hnothing⟩
      cases hpiece with
      | terminal => cases hedge
      | space => cases hedge
      | newline hbreaks => exact .newline (hbreaks.trans hskips)
      | endLine hspot hbreaks => exact .endLine hspot (hbreaks.trans hskips)
      | endLineFresh | indent | dedent => exact absurd hlt (Nat.lt_irrefl _)

/-! ### Single terminals -/

variable {kind : TokenKind}

/-- A symbol is written as its token. -/
theorem symbol (h : Writes spot (symbol kind) view next) : view.Passes kind next := by
  obtain ⟨middle, hpiece, rfl⟩ := h
  cases hpiece with
  | terminal hwritten hlocation =>
    exact .mk (congrArg Terminal.kind hwritten) hlocation

/-- A symbol and a space are written as the token of the symbol. -/
theorem symbolSpace (h : Writes spot (symbolSpace kind) view next) : view.Passes kind next := by
  obtain ⟨middle, hsymbol, _, hspace, rfl⟩ := writes_append.1 h
  cases hspace
  exact hsymbol.symbol

/-- A symbol between spaces is written as the token of the symbol. -/
theorem spaceSymbolSpace (h : Writes spot (spaceSymbolSpace kind) view next) :
    view.Passes kind next := by
  obtain ⟨_, hspace, hsymbol⟩ := h
  cases hspace
  exact hsymbol.symbolSpace

end Writes

end Written

end Offside.Canonical
