import Offside.Proofs.RoundTrip.Places

/-!
# Reading canonical lines

Things that take up whole lines, as statements, members and handlers do (`RereadsLines`), are read
as the lines of a block where they are written one level deeper (`yields_block`).
-/

namespace Offside

open Packrat Canonical Edge

/-- A thing that takes up lines may begin with the kind. -/
def TokenKind.beginsLine : TokenKind → Bool
  | endOfInput | endOfLine | kwElse => false
  | _ => true

/-- Behind the end of a line, only the place of the next token matters. -/
theorem Packrat.View.follows_of_ended {view : View} {rank column : Nat} (hended : view.ended = true)
    (hblock : view.Dedents column)
    (halternative : view.ahead = .kwElse → view.column? ≠ some column) :
    view.Follows rank column := by
  refine ⟨fun hline ↦ ?_, fun _ ↦ hblock, fun _ ↦ halternative⟩
  rw [hended] at hline
  cases hline

private theorem Packrat.View.Dedents.mono {view : View} {column deeper : Nat}
    (h : view.Dedents column)
    (hle : column ≤ deeper) : view.Dedents deeper :=
  ⟨h.lineEnd, fun found hfound ↦ Nat.le_trans (h.column found hfound) hle⟩

private theorem Packrat.View.Dedents.column_ne {view : View} {column deeper : Nat}
    (h : view.Dedents column)
    (hlt : column < deeper) : view.column? ≠ some deeper := fun hfound ↦
  absurd (h.column deeper hfound) (Nat.not_le_of_lt hlt)

namespace Grammar

variable {tokens : Array Token} {spot : Spot} {view next : View} {indent : Nat}

/-- What leaves a fresh line has ended the one before. -/
theorem ended_of_fresh {pieces : List Piece} {kind : TokenKind}
    (h : Writes spot pieces view next) (hleading : leading? pieces = some kind)
    (hfresh : (spot.after pieces).edge = .fresh) : next.ended = true := by
  obtain ⟨-, -, -, hends⟩ := h.head hleading
  rwa [hfresh] at hends

/-- What begins a line of a block stands in the column of the block. -/
theorem dedents_of_fresh {pieces : List Piece} {kind : TokenKind} (h : Writes spot pieces view next)
    (hspot : spot.edge = .fresh) (hleading : leading? pieces = some kind)
    (hkind : kind ≠ .endOfLine) :
    view.Dedents spot.column := by
  obtain ⟨hahead, -, hplace, -⟩ := h.head hleading
  refine ⟨hahead ▸ hkind, fun found hfound ↦ ?_⟩
  rw [hplace hspot] at hfound
  cases hfound
  exact Nat.le_refl _

variable {α γ : Type} {item : Parser α} {write : α → List Piece} {strip : α → γ}
  {locate : α → Location} {things : List α}

variable (tokens) in
/-- The thing takes up lines, and is read where it is written with the line ends behind it. -/
structure RereadsLines (item : Parser α) (write : α → List Piece) (strip : α → γ)
    (locate : α → Location) (thing : α) : Prop where
  lays : Lays (· = .fresh) (· = .fresh) (write thing)
  leading : ∃ kind, leading? (write thing) = some kind ∧ kind.beginsLine = true
  yields : ∀ ⦃spot : Spot⦄ ⦃view next : View⦄, Writes spot (write thing) view next →
    spot.edge = .fresh → next.Follows 0 spot.column →
    (Step.line (reader tokens item)).Yields tokens spot.column view next fun found ↦
      strip found = strip thing ∧ (locate found).isGenerated = false

-- Lines of one column are read, if what comes next is not as deep.
private theorem yields_lines
    (h : ∀ thing ∈ things, RereadsLines tokens item write strip locate thing)
    (hspot : spot.edge = .fresh) (hwrites : Writes spot (things.flatMap write) view next)
    {column : Nat} (hnext : next.Dedents column) (hcolumn : column < spot.column) :
    Step.YieldsLines tokens spot.column locate (Step.line (reader tokens item)) view next
      fun found ↦
      found.map strip = things.map strip := by
  induction things generalizing view with
  | nil =>
    cases hwrites
    refine (Step.yieldsLines_nil (hnext.column_ne hcolumn) locate _).mono fun found hfound ↦ ?_
    rw [hfound]
  | cons thing rest ih =>
    rw [List.forall_mem_cons] at h
    rw [List.flatMap_cons] at hwrites
    obtain ⟨middle, hfirst, hrest⟩ := writes_append.1 hwrites
    have hafter := (h.1.lays.lines spot hspot).2
    rw [hafter] at hrest
    obtain ⟨kind, hleading, -⟩ := h.1.leading
    obtain ⟨-, hlt, hplace, -⟩ := hfirst.head hleading
    have hended : middle.ended = true := ended_of_fresh hfirst hleading (by rw [hafter, hspot])
    have hfollows : middle.Follows 0 spot.column := by
      cases rest with
      | nil =>
        cases hrest
        exact View.follows_of_ended hended (hnext.mono (Nat.le_of_lt hcolumn))
          fun _ ↦ hnext.column_ne hcolumn
      | cons second rest =>
        obtain ⟨kind, hleading, hbegins⟩ := (List.forall_mem_cons.1 h.2).1.leading
        have hleading := leading?_append hleading (rest.flatMap write)
        refine View.follows_of_ended hended (dedents_of_fresh hrest hspot hleading ?_)
          fun helse ↦ ?_
        · rintro rfl
          cases hbegins
        · rw [(hrest.head hleading).1] at helse
          subst helse
          cases hbegins
    refine ((h.1.yields hfirst hspot hfollows).lines_cons (hplace hspot) (fun _ hfound ↦ hfound.2)
      hlt (ih h.2 hrest)).mono ?_
    rintro _ ⟨first, others, rfl, ⟨hfound, -⟩, hothers⟩
    rw [List.map_cons, List.map_cons, hfound, hothers]

/-- Lines one level deeper stand behind a line break. -/
theorem writes_indented {lines : List Piece}
    (h : Writes spot ([.newline, .indent] ++ lines ++ [.dedent]) view next) :
    ∃ inside, view.Breaks inside ∧ Writes ⟨spot.level + 1, .fresh⟩ lines inside next := by
  obtain ⟨behind, h, _, hdedent, rfl⟩ := writes_append.1 h
  cases hdedent
  obtain ⟨inside, ⟨_, hnewline, _, hindent, rfl⟩, hlines⟩ := writes_append.1 h
  cases hindent
  cases hnewline with
  | newline hbreaks => exact ⟨_, hbreaks, hlines⟩

/-- Things that take up lines are read as a block where they are written one level deeper. -/
theorem yields_block {inside : View}
    (h : ∀ thing ∈ things, RereadsLines tokens item write strip locate thing) (hne : things ≠ [])
    (hwrites : Writes ⟨spot.level + 1, .fresh⟩ (things.flatMap write) inside next)
    (hskips : view.Skips inside) (hindent : indent ≤ spot.column)
    (hnext : next.Dedents spot.column) :
    (reader tokens (.block locate item)).Yields tokens indent view next fun found ↦
      found.map strip = things.map strip := by
  have hcolumn : spot.column < Spot.column ⟨spot.level + 1, .fresh⟩ := by
    change 2 * spot.level + 1 < 2 * (spot.level + 1) + 1
    omega
  have hlines := yields_lines h rfl hwrites hnext hcolumn
  obtain ⟨first, rest, rfl⟩ := List.exists_cons_of_ne_nil hne
  obtain ⟨kind, hleading, hbegins⟩ := (List.forall_mem_cons.1 h).1.leading
  obtain ⟨hahead, -, hplace, -⟩ := hwrites.head (leading?_append hleading (rest.flatMap write))
  refine hlines.block hskips ?_ ?_ (hplace rfl) (Nat.lt_of_le_of_lt hindent hcolumn) ?_
  · rw [hahead]
    rintro rfl
    cases hbegins
  · rw [hahead]
    rintro rfl
    cases hbegins
  · rintro items hitems rfl
    cases hitems

end Grammar

end Offside
