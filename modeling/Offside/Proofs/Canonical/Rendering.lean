import Offside.Proofs.Canonical.Layout
import Offside.Proofs.Source.Spelling

/-!
# Scanning canonical source

The scanner reads the text of tidy pieces as the tokens that the pieces write, each terminal at the
beginning of a line in the column of its level (`scan_renderFrom`).
-/

namespace Offside.Canonical

open Packrat Token

/-! ### Blanks -/

/-- The place behind blanks. -/
def Place.behind (place : Place) (blanks : Nat) : Place :=
  ⟨place.row, place.column + blanks, place.offset + blanks⟩

private theorem scan_blanks (file : String) (place : Place) (count : Nat) (text : List Char) :
    scan file 0 place (List.replicate count ' ' ++ text) =
      scan file 0 (Place.behind place count) text := by
  induction count generalizing place with
  | zero => rfl
  | succ count ih =>
    have hblank : isBlank ' ' = true := by decide
    have hsize : Char.utf8Size ' ' = 1 := by decide
    rw [List.replicate_succ, List.cons_append, scan_zero, if_pos hblank, ih]
    simp [Place.behind, Place.after, hsize, Nat.add_comm, Nat.add_left_comm]

/-! ### Behind a terminal -/

-- Directly behind a terminal stands another one that does not cling to it, a blank, or nothing.
private theorem behind_cases {level : Nat} {kind : TokenKind} {pieces : List Piece}
    (h : Tidy ⟨level, .behind kind⟩ pieces) :
    (∃ next more, pieces = .terminal next :: more ∧ next.Legible ∧ kind.clings next.kind = false ∧
      Tidy ⟨level, .behind next.kind⟩ more) ∨
    ∀ x, (renderFrom level false pieces).head? = some x → x = ' ' ∨ x = '\n' := by
  cases pieces with
  | nil => exact .inr nofun
  | cons piece more =>
    obtain ⟨hpiece, hmore⟩ := h
    cases piece with
    | terminal next => exact .inl ⟨next, more, rfl, hpiece.1, hpiece.2, hmore⟩
    | space =>
      refine .inr fun x hx ↦ .inl ?_
      cases hx
      rfl
    | newline | endLine =>
      refine .inr fun x hx ↦ .inr ?_
      cases hx
      rfl
    | indent | dedent => cases hpiece

-- The text behind a terminal of tidy pieces is clear of it.
private theorem clearOf_renderFrom {level : Nat} {terminal : Terminal} {pieces : List Piece}
    (h : Tidy ⟨level, .behind terminal.kind⟩ pieces) :
    terminal.ClearOf (renderFrom level false pieces) := by
  obtain ⟨next, more, rfl, hnext, hclings, hmore⟩ | hblank := behind_cases h
  · refine Terminal.clearOf_spelling hnext hclings fun hperiod y hy ↦ ?_
    rw [hperiod] at hmore
    obtain ⟨name, last, rfl, hname, hperiod, -⟩ | hblank := behind_cases hmore
    · have hkind : name.kind = .identifier := by
        simp [TokenKind.clings] at hperiod
        exact hperiod.2
      obtain ⟨x, front, hform, hbegins⟩ := hname.begins
      have hx : x = y := by
        change (name.spelling ++ renderFrom level false last).head? = some y at hy
        rw [hform] at hy
        exact Option.some.inj hy
      rw [← hx]
      exact hbegins.name hkind
    · obtain rfl | rfl := hblank y hy <;> rfl
  · exact terminal.clearOf_of_blank hblank

/-! ### Whole texts -/

private theorem scan_placed (file : String) (spot : Spot) (place : Place) (text tail : List Char) :
    ∃ place', scan file 0 place (placed spot.level (spot.edge = .fresh) text ++ tail) =
        scan file 0 place' (text ++ tail) ∧
      (spot.edge = .fresh → place.column = 1 → place'.column = spot.column) := by
  by_cases hfresh : spot.edge = .fresh
  · refine ⟨Place.behind place (2 * spot.level), ?_, fun _ hcolumn ↦ ?_⟩
    · rw [placed, decide_eq_true hfresh, if_pos rfl, indentation, List.append_assoc, scan_blanks]
    · simp only [Place.behind, Spot.column, hcolumn]
      omega
  · refine ⟨place, ?_, fun h ↦ absurd h hfresh⟩
    rw [placed, decide_eq_false hfresh]
    rfl

/-- The scanner reads the text of tidy pieces as the tokens that the pieces write, and the end of
the input behind them. -/
theorem scan_renderFrom {file : String} {spot : Spot} {pieces : List Piece} (place : Place)
    (h : Tidy spot pieces) (hplace : spot.edge = .fresh → place.column = 1) (ended : Bool) :
    ∃ tokens next last, scan file 0 place (renderFrom spot.level (spot.edge = .fresh) pieces) =
        .ok tokens ∧ Writes spot pieces ⟨ended, tokens⟩ next ∧ next.tokens = [last] ∧
      last.kind = .endOfInput ∧
      ((spot.after pieces).edge = .fresh → last.location.column? = some 1) := by
  induction pieces generalizing spot place ended with
  | nil =>
    exact ⟨_, _, ⟨⟨.endOfInput, .none⟩, place.inFile file⟩, scan_nil .., rfl, rfl, rfl,
      fun hfresh ↦ congrArg some (hplace hfresh)⟩
  | cons piece pieces ih =>
    obtain ⟨hpiece, htidy⟩ := h
    cases piece with
    | terminal terminal =>
      obtain ⟨hlegible, hadmits⟩ := hpiece
      obtain ⟨place', hplaced, hcolumn⟩ := scan_placed file spot place terminal.spelling
        (renderFrom spot.level false pieces)
      obtain ⟨tokens, next, last, hscan, hwrites, hlast⟩ :=
        ih (terminal.spelling.foldl Place.after place') htidy (by rintro ⟨⟩)
          (terminal.kind = .endOfLine)
      refine ⟨⟨terminal, place'.inFile file⟩ :: tokens, next, last, ?_,
        ⟨_, .terminal rfl rfl fun h ↦ ?_, hwrites⟩, hlast⟩
      · rw [renderFrom, hplaced, hlegible.scan (clearOf_renderFrom htidy)]
        exact congrArg (Except.map _) hscan
      · exact congrArg some (hcolumn h (hplace h))
    | space =>
      obtain ⟨kind, hkind⟩ := hpiece
      obtain ⟨tokens, next, last, hscan, hwrites, hlast⟩ :=
        ih (place.after ' ') htidy (by rintro ⟨⟩) ended
      refine ⟨tokens, next, last, ?_, ⟨_, .space, hwrites⟩, hlast⟩
      have hblank : isBlank ' ' = true := by decide
      have hplaced : placed spot.level (spot.edge = .fresh) [' '] = [' '] := by
        rw [hkind]
        rfl
      rw [renderFrom, hplaced, List.singleton_append, scan_zero, if_pos hblank]
      exact hscan
    | newline =>
      obtain ⟨tokens, next, last, hscan, hwrites, hlast⟩ :=
        ih (place.after '\n') htidy (fun _ ↦ rfl) true
      refine ⟨⟨⟨.endOfLine, .none⟩, place.inFile file⟩ :: tokens, next, last, ?_,
        ⟨_, .newline (.mk rfl (.refl _)), hwrites⟩, hlast⟩
      rw [renderFrom, scan_lineFeed]
      exact congrArg (Except.map _) hscan
    | endLine =>
      by_cases hfresh : spot.edge = .fresh
      · obtain ⟨tokens, next, last, hscan, hwrites, hlast⟩ :=
          ih place htidy (fun _ ↦ hplace hfresh) ended
        refine ⟨tokens, next, last, ?_, ⟨_, .endLineFresh hfresh, hwrites⟩, hlast⟩
        rw [renderFrom, decide_eq_true hfresh, if_pos rfl]
        exact hscan
      · obtain ⟨tokens, next, last, hscan, hwrites, hlast⟩ :=
          ih (place.after '\n') htidy (fun _ ↦ rfl) true
        have hbreak : View.Breaks ⟨ended, ⟨⟨.endOfLine, .none⟩, place.inFile file⟩ :: tokens⟩
            ⟨true, tokens⟩ := .mk rfl (.refl _)
        refine ⟨_, next, last, ?_, ⟨_, .endLine hfresh hbreak, hwrites⟩, hlast⟩
        rw [renderFrom, decide_eq_false hfresh, if_neg Bool.false_ne_true, scan_lineFeed]
        exact congrArg (Except.map _) hscan
    | indent =>
      obtain ⟨tokens, next, last, hscan, hwrites, hlast⟩ := ih place htidy hplace ended
      exact ⟨tokens, next, last, hscan, ⟨_, .indent, hwrites⟩, hlast⟩
    | dedent =>
      obtain ⟨tokens, next, last, hscan, hwrites, hlast⟩ := ih place htidy hplace ended
      exact ⟨tokens, next, last, hscan, ⟨_, .dedent, hwrites⟩, hlast⟩

end Offside.Canonical
