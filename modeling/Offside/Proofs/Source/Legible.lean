import Offside.Proofs.Source.Lexeme
import Offside.Proofs.Source.Numeral
import Offside.Proofs.Source.Scan

/-!
# Legible terminals

A terminal is legible if the scanner writes it (`Terminal.Legible`, `legible_of_read`), and a text
is clear of a terminal if it does not begin with what could be joined with the spelling of the
terminal (`Terminal.ClearOf`). The scanner reads the spelling of a legible terminal, before a text
that is clear of it, as that terminal (`Terminal.Legible.longest`).
-/

namespace Offside

open Lexeme LexemeClass

/-- The terminals that the scanner writes, ends of lines and of the input apart. -/
inductive Terminal.Legible : Terminal → Prop where
  | spelled {kind : TokenKind} : kind ∈ TokenKind.spelled → Legible ⟨kind, .none⟩
  | identifier {name : String} : IsName name.toList → Legible ⟨.identifier, .text name⟩
  | string (value : String) : Legible ⟨.string, .text value⟩
  | integer (value : Nat) : Legible ⟨.integer, .integer value⟩
  | float {value : Binary64} : value.isFinite = true → value.isNegative = false →
      Legible ⟨.float, .float value⟩
  | boolean (value : Bool) : Legible ⟨.boolean, .boolean value⟩
  | character (value : Char) : Legible ⟨.character, .character value⟩

/-- The kind is spelled with the characters of names and numbers. -/
def TokenKind.isWord : TokenKind → Bool
  | .identifier | .integer | .float | .boolean | .underscore | .kwStruct | .kwLet | .kwDo | .kwIf
  | .kwElse | .kwFor | .kwIn | .kwWhile | .kwAnd | .kwOr | .kwXor | .kwNew => true
  | _ => false

/-- The text begins with nothing that could be joined with the spelling of the terminal. -/
structure Terminal.ClearOf (terminal : Terminal) (tail : List Char) : Prop where
  word : terminal.kind.isWord = true → EndsName tail
  fraction : terminal.kind = .integer ∨ terminal.kind = .float →
    ∀ y rest, tail = '.' :: y :: rest → y.isDigit = false
  extension : ∀ x, (LexemeClass.spelled terminal.kind).extension? = some x → tail.head? ≠ some x

namespace Terminal

private theorem fixed_spelled : ∀ kind ∈ TokenKind.spelled,
    (LexemeClass.spelled kind).fixed? = some (Terminal.spelling ⟨kind, .none⟩) ∧
      ((Terminal.spelling ⟨kind, .none⟩).head?.any startsName = true → kind.isWord = true) := by
  decide +kernel

private theorem extension_boolean (value : Bool) : (LexemeClass.boolean value).extension? = none :=
  rfl

/-- The canonical spelling of an integer. -/
theorem spelling_integer (value : Nat) :
    Terminal.spelling ⟨.integer, .integer value⟩ = Nat.toDigits 10 value :=
  Nat.toList_repr

variable {terminal : Terminal} {tail : List Char}

/-- The spelling of a legible terminal is read as the terminal. -/
theorem Legible.longest (h : terminal.Legible) (htail : terminal.ClearOf tail) :
    ∃ lexemeClass, LexemeClass.longest (terminal.spelling ++ tail) =
        some (lexemeClass, terminal.spelling.length) ∧
      lexemeClass.read terminal.spelling = .ok terminal := by
  cases h with
  | @spelled kind hkind =>
    obtain ⟨hfixed, hword⟩ := fixed_spelled kind hkind
    refine ⟨.spelled kind, longest_fixed hfixed nofun (fun ⟨x, hx, hstarts⟩ ↦ ?_) htail.extension,
      rfl⟩
    exact htail.word (hword (by rw [hx]; exact hstarts))
  | @identifier name hname =>
    refine ⟨.identifier, longest_name hname (htail.word rfl), ?_⟩
    change Except.ok (⟨.identifier, .text (String.ofList name.toList)⟩ : Terminal) = _
    rw [String.ofList_toList]
  | string value =>
    refine ⟨.closedString, ?_, ?_⟩
    · have hread := longest_string value.toList tail
      simpa [spelling, stringSpelling] using hread
    · have hdecode := Text.Quoted.decode_encode (.inl rfl) value.toList
      simp [spelling, stringSpelling, LexemeClass.read, hdecode]
  | integer value =>
    rw [spelling_integer]
    refine ⟨.decimal, longest_digits Nat.toDigits_ne_nil (IsDigits.toDigits value)
      ⟨htail.word rfl, htail.fraction (.inl rfl)⟩, ?_⟩
    simp [LexemeClass.read, numeral_toDigits]
  | @float value hfinite hsign =>
    obtain ⟨⟨whole, fraction, hform, hwhole, hfraction, hne, hne'⟩, hnearest⟩ :=
      Binary64.literal_reads_back hfinite hsign
    have hspelling : Terminal.spelling ⟨.float, .float value⟩ = value.literal := rfl
    rw [hspelling]
    refine ⟨.float, ?_, ?_⟩
    · have hread := longest_float hne hne' hwhole hfraction
        ⟨htail.word rfl, htail.fraction (.inr rfl)⟩
      rw [hform, List.append_assoc, List.cons_append, hread, List.length_append, List.length_cons,
        Nat.add_comm 1]
    · simp [LexemeClass.read, hnearest, hfinite]
  | boolean value =>
    have hspelling : Terminal.spelling ⟨.boolean, .boolean value⟩ = truthSpelling value := by
      cases value <;> rfl
    rw [hspelling]
    exact ⟨.boolean value, longest_fixed rfl nofun (fun _ ↦ htail.word rfl)
      (by rw [extension_boolean]; nofun), rfl⟩
  | character value =>
    refine ⟨.character, ?_, ?_⟩
    · have hread := longest_character value tail
      simpa [spelling, characterSpelling] using hread
    · have hdecode := Text.Quoted.decode_encode (.inr rfl) [value]
      simp [spelling, characterSpelling, LexemeClass.read, hdecode]

end Terminal

/-! ### Beginnings of spellings -/

/-- The character that the kind begins with, if it is one that may make a longer lexeme. -/
def TokenKind.initial? : TokenKind → Option Char
  | .colon | .doubleColon => some ':'
  | .assign | .equal => some '='
  | .slash | .doubleSlash => some '/'
  | .period | .doublePeriod => some '.'
  | _ => none

/-- The spelling of the kind may not stand directly before that of the other: they would be read as
one, or as something else. -/
def TokenKind.clings (kind next : TokenKind) : Bool :=
  (kind.isWord && next.isWord) ||
    ((LexemeClass.spelled kind).extension?.isSome &&
      (LexemeClass.spelled kind).extension? = next.initial?) ||
    (kind = .period && next ≠ .identifier)

/-- A character that makes a longer lexeme of what stands before it. -/
def Lexeme.isExtension (c : Char) : Bool := c == ':' || c == '=' || c == '/' || c == '.'

/-- What the first character of a spelling says. -/
structure Terminal.Begins (terminal : Terminal) (x : Char) : Prop where
  blank : Token.isBlank x = false
  word : terminal.kind.isWord = false → continuesName x = false
  name : terminal.kind = .identifier → x.isDigit = false
  extension : isExtension x = true → terminal.kind.initial? = some x

private def begins (terminal : Terminal) (x : Char) : Bool :=
  !Token.isBlank x && (terminal.kind.isWord || !continuesName x) && terminal.kind ≠ .identifier &&
    (!isExtension x || terminal.kind.initial? = some x)

private theorem begins_spelled : ∀ kind ∈ TokenKind.spelled,
    (Terminal.spelling ⟨kind, .none⟩).head?.any (begins ⟨kind, .none⟩) = true := by
  decide +kernel

private theorem begins_of_continuesName {terminal : Terminal} {x : Char}
    (hword : terminal.kind.isWord = true) (hx : continuesName x = true)
    (hname : terminal.kind = .identifier → x.isDigit = false) : terminal.Begins x := by
  have hne {y : Char} (hy : continuesName y = false) : x ≠ y := by
    rintro rfl
    rw [hy] at hx
    cases hx
  refine ⟨?_, fun h ↦ ?_, hname, fun h ↦ ?_⟩
  · have hspace : x ≠ ' ' := hne (by decide)
    have htab : x ≠ '\t' := hne (by decide)
    have hreturn : x ≠ '\r' := hne (by decide)
    simp [Token.isBlank, hspace, htab, hreturn]
  · rw [hword] at h
    cases h
  · have hcolon : x ≠ ':' := hne (by decide)
    have hequal : x ≠ '=' := hne (by decide)
    have hslash : x ≠ '/' := hne (by decide)
    have hpoint : x ≠ '.' := hne (by decide)
    simp [isExtension, hcolon, hequal, hslash, hpoint] at h

/-- The spelling of a legible terminal begins as the terminal does. -/
theorem Terminal.Legible.begins {terminal : Terminal} (h : terminal.Legible) :
    ∃ x rest, terminal.spelling = x :: rest ∧ terminal.Begins x := by
  cases h with
  | @spelled kind hkind =>
    have hbegins := begins_spelled kind hkind
    cases hspelling : Terminal.spelling ⟨kind, .none⟩ with
    | nil =>
      rw [hspelling] at hbegins
      cases hbegins
    | cons x rest =>
      rw [hspelling] at hbegins
      simp only [List.head?_cons, Option.any_some, Offside.begins, Bool.and_eq_true,
        Bool.not_eq_true', Bool.or_eq_true, decide_eq_true_eq, ne_eq] at hbegins
      obtain ⟨⟨⟨hblank, hword⟩, hname⟩, hextension⟩ := hbegins
      refine ⟨x, rest, rfl, hblank, fun h ↦ hword.resolve_left (by simp [h]),
        fun h ↦ absurd h hname, fun h ↦ hextension.resolve_left (by simp [h])⟩
  | @identifier name hname =>
    obtain ⟨⟨x, rest, hform, hx, -⟩, -⟩ := hname
    exact ⟨x, rest, hform, begins_of_continuesName rfl (by simp [continuesName, hx])
      fun _ ↦ isDigit_of_startsName hx⟩
  | string value => exact ⟨'"', _, rfl, by decide, fun _ ↦ by decide, nofun, nofun⟩
  | integer value =>
    rw [Terminal.spelling_integer]
    have hdigits := IsDigits.toDigits value
    obtain ⟨x, rest, hform⟩ :=
      List.exists_cons_of_ne_nil (Nat.toDigits_ne_nil (n := value) (b := 10))
    rw [hform] at hdigits ⊢
    exact ⟨x, rest, rfl, begins_of_continuesName rfl
      (continuesName_of_isDigit (hdigits x List.mem_cons_self)) nofun⟩
  | @float value hfinite hsign =>
    obtain ⟨⟨whole, fraction, hform, hwhole, -, hne, -⟩, -⟩ :=
      Binary64.literal_reads_back hfinite hsign
    obtain ⟨x, rest, rfl⟩ := List.exists_cons_of_ne_nil hne
    exact ⟨x, rest ++ '.' :: fraction, hform, begins_of_continuesName rfl
      (continuesName_of_isDigit (hwhole x List.mem_cons_self)) nofun⟩
  | boolean value =>
    cases value
    · exact ⟨'f', _, rfl, begins_of_continuesName rfl (by decide) nofun⟩
    · exact ⟨'t', _, rfl, begins_of_continuesName rfl (by decide) nofun⟩
  | character value => exact ⟨'\'', _, rfl, by decide, fun _ ↦ by decide, nofun, nofun⟩

private theorem isExtension_of_extension : ∀ kind : TokenKind, ∀ x,
    (LexemeClass.spelled kind).extension? = some x → isExtension x = true := by
  intro kind x h
  cases kind <;> cases h <;> rfl

private theorem points {terminal : Terminal} (h : terminal.Legible)
    (hpoint : terminal.kind.initial? = some '.') :
    terminal.kind = .period ∧ terminal.spelling = ['.'] ∨ terminal.spelling = ['.', '.'] := by
  cases h with
  | @spelled kind hkind =>
    cases kind with
    | period => exact .inl ⟨rfl, rfl⟩
    | doublePeriod => exact .inr rfl
    | _ => cases hpoint
  | _ => cases hpoint

/-- What does not cling to a terminal is clear of it. -/
theorem Terminal.clearOf_spelling {terminal next : Terminal} (hnext : next.Legible)
    (h : terminal.kind.clings next.kind = false) {tail : List Char}
    (hdigit : next.kind = .period → ∀ y, tail.head? = some y → y.isDigit = false) :
    terminal.ClearOf (next.spelling ++ tail) := by
  obtain ⟨x, rest, hform, hbegins⟩ := hnext.begins
  simp only [TokenKind.clings, Bool.or_eq_false_iff, Bool.and_eq_false_iff,
    decide_eq_false_iff_not] at h
  obtain ⟨⟨hword, hextension⟩, -⟩ := h
  refine ⟨fun h y hy ↦ ?_, fun _ y rest' heq ↦ ?_, fun y hy heq ↦ ?_⟩
  · rw [hform] at hy
    cases hy
    exact hbegins.word (hword.resolve_left (by simp [h]))
  · have hx : x = '.' := by
      rw [hform] at heq
      exact (List.cons.inj heq).1
    subst hx
    obtain ⟨hperiod, hone⟩ | htwo := points hnext (hbegins.extension rfl)
    · rw [hone] at heq
      cases heq
      exact hdigit hperiod y rfl
    · rw [htwo] at heq
      cases heq
      rfl
  · rw [hform] at heq
    cases heq
    rw [hy, hbegins.extension (isExtension_of_extension _ _ hy)] at hextension
    simp at hextension

/-- A text that begins with a blank or a line feed, or with nothing, is clear of every terminal. -/
theorem Terminal.clearOf_of_blank (terminal : Terminal) {tail : List Char}
    (h : ∀ x, tail.head? = some x → x = ' ' ∨ x = '\n') : terminal.ClearOf tail := by
  refine ⟨fun _ x hx ↦ ?_, fun _ y rest heq ↦ ?_, fun x hx heq ↦ ?_⟩
  · obtain rfl | rfl := h x hx <;> decide
  · rw [heq] at h
    obtain hx | hx := h '.' rfl <;> cases hx
  · have hextends := isExtension_of_extension _ _ hx
    obtain rfl | rfl := h x heq <;> cases hextends

/-! ### What the scanner writes -/

/-- A lexeme that is read as a name is one. -/
theorem isName_of_longest {text : List Char} {length : Nat}
    (h : longest text = some (identifier, length)) : IsName (text.take length) := by
  obtain ⟨-, hextent, hpos⟩ := mem_of_longestOf h
  obtain ⟨-, hless⟩ := max_of_longestOf h
  cases text with
  | nil =>
    rw [← hextent] at hpos
    cases hpos
  | cons x rest =>
    by_cases hx : startsName x = true
    · have hlength : run continuesName rest + 1 = length := by
        rw [← hextent, extent, if_pos hx, Nat.add_comm]
      have htake : (x :: rest).take length = x :: rest.takeWhile continuesName := by
        rw [← hlength, List.take_succ_cons, run,
          ← List.prefix_iff_eq_take.1 (List.takeWhile_prefix _)]
      refine ⟨⟨x, _, htake, hx, fun y hy ↦ List.all_eq_true.1 List.all_takeWhile y hy⟩,
        fun c hc ↦ ?_⟩
      have hquote : c ≠ loneQuote := by
        rintro rfl
        rw [htake] at hc
        rw [← (List.cons.inj (Option.some.inj hc)).1] at hx
        exact absurd hx (by decide)
      have hlt := hless c (fixed_before_identifier c (mem_all (by rw [hc]; rfl)) (by rw [hc]; rfl)
        hquote)
      have hself : c.extent (x :: rest) = length := by
        rw [extent_of_fixed hc, spellingExtent,
          if_pos (List.isPrefixOf_iff_prefix.2 (List.take_prefix ..)), htake, List.length_cons,
          ← run, hlength]
      omega
    · rw [extent_identifier_eq_zero (by simpa using hx)] at hextent
      omega

private theorem isNegative_nearest (d : Decimal) : d.nearest.isNegative = false := by
  have hbits (n : Nat) :
      (⟨UInt64.ofNat (min n Binary64.infinityBits)⟩ : Binary64).isNegative = false := by
    have hle : min n Binary64.infinityBits ≤ Binary64.infinityBits := Nat.min_le_right ..
    have hbound : Binary64.infinityBits < 2 ^ (63 : Nat) := by decide
    simp only [Binary64.isNegative, UInt64.toNat_ofNat', decide_eq_false_iff_not]
    rw [Nat.mod_eq_of_lt (by omega)]
    omega
  unfold Decimal.nearest Binary64.ofRatio
  split
  · rfl
  · split
    · decide
    · split
      · rfl
      · split <;> exact hbits _

/-- What is read of a lexeme is legible, or the end of a line. -/
theorem legible_of_read {text : List Char} {lexemeClass : LexemeClass} {length : Nat}
    {terminal : Terminal} (h : longest text = some (lexemeClass, length))
    (hread : lexemeClass.read (text.take length) = .ok terminal) :
    terminal.Legible ∨ terminal.kind = .endOfLine := by
  cases lexemeClass with
  | spelled kind =>
    cases hread
    have hmem := (mem_of_longestOf h).1
    have hall : ∀ kind, LexemeClass.spelled kind ∈ all → kind ∈ TokenKind.spelled := by
      intro kind
      cases kind <;> decide
    exact .inl (.spelled (hall kind hmem))
  | endOfLine =>
    cases hread
    exact .inr rfl
  | boolean value =>
    cases hread
    exact .inl (.boolean value)
  | identifier =>
    cases hread
    refine .inl (.identifier ?_)
    rw [String.toList_ofList]
    exact isName_of_longest h
  | decimal | hexadecimal | binary =>
    cases hread
    exact .inl (.integer _)
  | float =>
    simp only [LexemeClass.read] at hread
    split at hread
    · next hfinite =>
      cases hread
      exact .inl (.float hfinite (isNegative_nearest _))
    · cases hread
  | closedString =>
    simp only [LexemeClass.read] at hread
    split at hread
    · cases hread
      exact .inl (.string _)
    · cases hread
  | character =>
    simp only [LexemeClass.read] at hread
    split at hread
    · cases hread
      exact .inl (.character _)
    · cases hread
    · cases hread
  | openString | loneQuote => cases hread

/-- A token that the scanner writes for a lexeme: it stands at a place of a file and is legible, or
ends a line. -/
structure Token.Scanned (token : Token) : Prop where
  placed : token.location.isGenerated = false
  legible : token.toTerminal.Legible ∨ token.kind = .endOfLine

/-- No lexeme ends the input. -/
theorem Token.Scanned.kind_ne {token : Token} (h : token.Scanned) : token.kind ≠ .endOfInput := by
  obtain hlegible | hline := h.legible
  · intro hkind
    obtain ⟨⟨kind, payload⟩, location⟩ := token
    dsimp only at hlegible hkind
    subst hkind
    cases hlegible with
    | spelled hspelled => exact absurd hspelled (by decide)
  · rw [hline]
    decide

/-- The scanner writes one token for each lexeme and a last one for the end of the input. -/
theorem Token.scanned_of_scan {file : String} {pending : Nat} {place : Place} {text : List Char}
    {tokens : List Token} (h : scan file pending place text = .ok tokens) :
    ∃ row last, tokens = row ++ [last] ∧ (∀ token ∈ row, token.Scanned) ∧
      last.kind = .endOfInput ∧ last.location.isGenerated = false := by
  induction text generalizing pending place tokens with
  | nil =>
    rw [scan_nil] at h
    cases h
    exact ⟨[], _, rfl, fun _ hmem ↦ absurd hmem List.not_mem_nil, rfl, rfl⟩
  | cons c rest ih =>
    cases pending with
    | succ pending => exact ih h
    | zero =>
      obtain ⟨-, h⟩ | ⟨_, _, terminal, later, hlongest, hread, hlater, rfl⟩ := scan_cases h
      · exact ih h
      · obtain ⟨row, last, rfl, hrow, hlast⟩ := ih hlater
        refine ⟨⟨terminal, place.inFile file⟩ :: row, last, rfl, ?_, hlast⟩
        rw [List.forall_mem_cons]
        exact ⟨⟨rfl, legible_of_read hlongest hread⟩, hrow⟩

end Offside
