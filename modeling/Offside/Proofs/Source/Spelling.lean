import Offside.Proofs.Source.Legible
import Offside.Proofs.Source.Tiling

/-!
# Scanning spellings

A legible terminal keeps to its line (`Terminal.Legible.lineFeed_not_mem`), and the scanner reads
its spelling as the terminal and goes on behind it, if what follows is clear of the terminal
(`Terminal.Legible.ofSource_append`). So a spelling on its own is the terminal and the end of the
input (`Terminal.Legible.ofSource`). A line feed, which has no spelling, is the end of a line
wherever it is scanned (`Token.scan_lineFeed`).
-/

namespace Offside

open Lexeme LexemeClass

/-! ### Spellings keep to their line -/

/-- What is written of a text between quotes keeps to its line. -/
theorem Text.Quoted.lineFeed_not_mem_encode (quote : Char) (text : List Char) :
    '\n' ∉ encode quote text := by
  intro hmem
  obtain ⟨c, -, hmem⟩ := List.mem_flatMap.1 hmem
  unfold encodeChar at hmem
  split at hmem
  · simp at hmem
  · simp at hmem
  · simp at hmem
  · simp at hmem
  · next hlineFeed _ _ =>
    have hlineFeed : '\n' ≠ c := Ne.symm hlineFeed
    split at hmem <;> simp [hlineFeed] at hmem

private theorem lineFeed_not_mem_of_continuesName {text : List Char}
    (h : ∀ c ∈ text, continuesName c = true) : '\n' ∉ text :=
  fun hmem ↦ absurd (h _ hmem) (by decide)

private theorem lineFeed_not_mem_spelled : ∀ kind ∈ TokenKind.spelled,
    '\n' ∉ Terminal.spelling ⟨kind, .none⟩ := by
  decide +kernel

namespace Terminal.Legible

variable {terminal : Terminal} {tail : List Char}

/-- No line ends in the spelling of a terminal. -/
theorem lineFeed_not_mem (h : terminal.Legible) : '\n' ∉ terminal.spelling := by
  have hquoted {quote : Char} (hquote : quote ≠ '\n') (text : List Char) :
      '\n' ∉ quote :: Text.Quoted.encode quote text ++ [quote] := by
    simp [hquote.symm, Text.Quoted.lineFeed_not_mem_encode]
  cases h with
  | spelled hkind => exact lineFeed_not_mem_spelled _ hkind
  | @identifier name hname =>
    obtain ⟨⟨x, rest, hform, hx, hrest⟩, -⟩ := hname
    have hall : ∀ c ∈ name.toList, continuesName c = true := by
      rw [hform, List.forall_mem_cons]
      exact ⟨by simp [continuesName, hx], hrest⟩
    exact lineFeed_not_mem_of_continuesName hall
  | string value => exact hquoted (by decide) value.toList
  | integer value =>
    rw [spelling_integer]
    exact lineFeed_not_mem_of_continuesName fun c hc ↦
      continuesName_of_isDigit (IsDigits.toDigits value c hc)
  | @float value hfinite hsign =>
    obtain ⟨⟨whole, fraction, hform, hwhole, hfraction, -, -⟩, -⟩ :=
      Binary64.literal_reads_back hfinite hsign
    have hdigits {digits : List Char} (h : IsDigits digits) : '\n' ∉ digits :=
      lineFeed_not_mem_of_continuesName fun c hc ↦ continuesName_of_isDigit (h c hc)
    change '\n' ∉ value.literal
    rw [hform]
    simp [hdigits hwhole, hdigits hfraction]
  | boolean value => cases value <;> decide
  | character value => exact hquoted (by decide) [value]

/-! ### Spellings are scanned -/

/-- The lexeme at the front of the spelling and what follows is the spelling. -/
theorem front (h : terminal.Legible) (htail : terminal.ClearOf tail) :
    Token.front (terminal.spelling ++ tail) = .ok (terminal, terminal.spelling) := by
  obtain ⟨lexemeClass, hlongest, hread⟩ := h.longest htail
  unfold Token.front
  rw [hlongest]
  dsimp only
  rw [List.take_left, tell_eq_ok]
  exact ⟨hread, rfl⟩

/-- The scanner reads the spelling as the terminal, and goes on behind it. -/
theorem scan (h : terminal.Legible) (htail : terminal.ClearOf tail) (file : String)
    (place : Place) :
    Token.scan file 0 place (terminal.spelling ++ tail) =
      (Token.scan file 0 (terminal.spelling.foldl Place.after place) tail).map
        (⟨terminal, place.inFile file⟩ :: ·) := by
  obtain ⟨x, rest, hform, hbegins⟩ := h.begins
  have hfront := h.front htail
  rw [hform] at hfront ⊢
  rw [List.cons_append] at hfront ⊢
  rw [Token.scan_front hbegins.blank, hfront]
  dsimp only
  rw [← List.cons_append, List.drop_left]

/-- A source text that begins with the spelling gives the terminal and what is scanned behind it, be
it tokens or an error. -/
theorem ofSource_append (h : terminal.Legible) (htail : terminal.ClearOf tail) (file : String) :
    Token.ofSource file (String.ofList (terminal.spelling ++ tail)) =
      (Token.scan file 0 (.behind terminal.spelling) tail).map
        (⟨terminal, Place.start.inFile file⟩ :: ·) := by
  rw [Token.ofSource, String.toList_ofList, h.scan htail, ← Place.behind_nil,
    Place.foldl_after_behind, List.nil_append]

/-- The spelling on its own is the terminal and the end of the input. -/
theorem ofSource (h : terminal.Legible) (file : String) :
    Token.ofSource file (String.ofList terminal.spelling) =
      .ok [⟨terminal, Place.start.inFile file⟩,
        ⟨⟨.endOfInput, .none⟩, (Place.behind terminal.spelling).inFile file⟩] := by
  have hclear : terminal.ClearOf [] := terminal.clearOf_of_blank nofun
  have happend := h.ofSource_append hclear file
  rwa [List.append_nil, Token.scan_nil] at happend

end Terminal.Legible

/-! ### Line feeds are scanned -/

namespace Token

/-- A line feed is read as the end of a line. -/
theorem front_lineFeed (rest : List Char) :
    front ('\n' :: rest) = .ok (⟨.endOfLine, .none⟩, ['\n']) := by
  have hlongest : longest (['\n'] ++ rest) = some (endOfLine, 1) :=
    longest_fixed rfl (by decide) (by simp [show startsName '\n' = false by decide])
      (fun x hx ↦ nomatch hx)
  unfold front
  rw [show '\n' :: rest = ['\n'] ++ rest from rfl, hlongest]
  rfl

/-- The scanner reads a line feed as the end of a line, and goes on behind it. -/
theorem scan_lineFeed (file : String) (place : Place) (rest : List Char) :
    scan file 0 place ('\n' :: rest) =
      (scan file 0 (place.after '\n') rest).map
        (⟨⟨.endOfLine, .none⟩, place.inFile file⟩ :: ·) := by
  rw [scan_front (by decide), front_lineFeed]
  rfl

end Token

end Offside
