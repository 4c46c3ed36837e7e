import Offside.Proofs.Source.Munch
import Offside.Proofs.Source.Spelling

/-!
# Line breaks between texts

A line feed ends every lexeme that is read in a text, since only quoted lexemes hold one and these
end at their quotes (`Token.front_append_lineFeed`). So a text, a line feed and another text are
read one after the other, the second from further down (`Token.ofSource_append_lineFeed`).
-/

namespace Offside

open Lexeme LexemeClass
open scoped Computability

/-! ### Lexemes with line feeds -/

namespace Lexeme

variable {test : Char → Bool} {language other : Language Char} {word : List Char}

/-- No word of the language holds a line feed. -/
def Inline (language : Language Char) : Prop := ∀ word ∈ language, '\n' ∉ word

private theorem inline_singleton (h : '\n' ∉ word) : Inline {word} := by
  rintro _ rfl
  exact h

private theorem inline_one (h : test '\n' = false) : Inline (one test) := by
  rintro _ ⟨c, hc, rfl⟩ hmem
  rw [← List.mem_singleton.1 hmem, h] at hc
  cases hc

private theorem Inline.mul (h : Inline language) (h' : Inline other) :
    Inline (language * other) := by
  intro word hword hmem
  obtain ⟨first, hfirst, second, hsecond, rfl⟩ := Language.mem_mul.1 hword
  obtain hmem | hmem := List.mem_append.1 hmem
  · exact h first hfirst hmem
  · exact h' second hsecond hmem

private theorem Inline.add (h : Inline language) (h' : Inline other) : Inline (language + other) :=
  fun word hword ↦ hword.elim (h word) (h' word)

private theorem inline_epsilon : Inline 1 := inline_singleton List.not_mem_nil

private theorem Inline.kstar (h : Inline language) : Inline (language∗) := by
  intro word hword hmem
  obtain ⟨parts, rfl, hparts⟩ := Language.mem_kstar.1 hword
  obtain ⟨part, hpart, hmem⟩ := List.mem_flatten.1 hmem
  exact h part (hparts part hpart) hmem

private theorem inline_many (h : test '\n' = false) : Inline (many test) :=
  (inline_one h).mul (inline_one h).kstar

private theorem inline_based {lower upper : Char} (hlower : lower ≠ '\n') (hupper : upper ≠ '\n')
    (h : test '\n' = false) : Inline (based lower upper test) := by
  refine ((inline_singleton (by decide)).mul (inline_one ?_)).mul (inline_many h)
  simp [hlower.symm, hupper.symm]

private theorem inline_exponent : Inline exponent :=
  ((inline_one (by decide)).mul (inline_epsilon.add (inline_one (by decide)))).mul
    (inline_many (by decide))

end Lexeme

namespace LexemeClass

variable {c : LexemeClass} {word : List Char}

private theorem inline_spelled :
    ∀ c ∈ all, ∀ spelling ∈ c.fixed?, '\n' ∈ spelling → c = endOfLine := by
  decide +kernel

/-- A lexeme with a line feed is the line end, or begins with a quote. -/
theorem lineFeed_of_mem_pattern (h : word ∈ c.pattern) (hmem : '\n' ∈ word) :
    word = ['\n'] ∨ ∃ x rest, word = x :: rest ∧ (x = '"' ∨ x = '\'') := by
  have hdigits : Inline (many Char.isDigit) := inline_many (by decide)
  cases hc : c.fixed? with
  | some spelling =>
    obtain rfl := (mem_pattern_of_fixed hc).1 h
    obtain rfl := inline_spelled c (mem_all (by rw [hc]; rfl)) word hc hmem
    exact .inl h
  | none =>
    cases c with
    | spelled kind =>
      rw [pattern, Option.map_eq_none_iff.1 hc] at h
      cases h
    | endOfLine | boolean | loneQuote => cases hc
    | identifier =>
      exact absurd hmem ((inline_one (by decide)).mul (inline_one (by decide)).kstar word h)
    | decimal => exact absurd hmem (hdigits word h)
    | hexadecimal => exact absurd hmem (inline_based (by decide) (by decide) (by decide) word h)
    | binary => exact absurd hmem (inline_based (by decide) (by decide) (by decide) word h)
    | float =>
      have hpoint : Inline {['.']} := inline_singleton (by decide)
      have hfraction := ((hdigits.mul hpoint).mul hdigits).mul (inline_epsilon.add inline_exponent)
      exact absurd hmem (hfraction.add (hdigits.mul inline_exponent) word h)
    | closedString =>
      obtain ⟨_, hfront, rfl⟩ := mem_mul_singleton.1 h
      obtain ⟨body, -, rfl⟩ := mem_singleton_mul.1 hfront
      exact .inr ⟨'"', _, rfl, .inl rfl⟩
    | openString =>
      obtain ⟨body, -, rfl⟩ := mem_singleton_mul.1 h
      exact .inr ⟨'"', _, rfl, .inl rfl⟩
    | character =>
      obtain ⟨_, -, -, rfl⟩ | ⟨_, -, rfl⟩ := mem_character.1 h
      · exact .inr ⟨'\'', _, rfl, .inr rfl⟩
      · exact .inr ⟨'\'', _, rfl, .inr rfl⟩

end LexemeClass

/-! ### The front before a line feed -/

namespace Token

variable {file : String} {place : Place} {text other lexeme rest : List Char} {c : LexemeClass}
  {terminal : Terminal} {tokens : List Token}

/-- Texts with the same longest lexeme have the same front. -/
theorem front_congr (h : IsLongest text lexeme c) (h' : IsLongest other lexeme c) :
    front text = front other := by
  by_cases hfixed : ∃ d : LexemeClass, d.fixed? = some lexeme
  · obtain ⟨d, hd⟩ := hfixed
    have hmem : lexeme ∈ d.pattern := (mem_pattern_of_fixed hd).2 rfl
    have hname : d = identifier → ∀ e : LexemeClass, e.fixed? ≠ some lexeme := by
      rintro rfl
      cases hd
    rw [front_of_isLongest ⟨h.stands, hmem, h.longest⟩ hname,
      front_of_isLongest ⟨h'.stands, hmem, h'.longest⟩ hname]
  · have hname : c = identifier → ∀ d : LexemeClass, d.fixed? ≠ some lexeme :=
      fun _ d hd ↦ hfixed ⟨d, hd⟩
    rw [front_of_isLongest h hname, front_of_isLongest h' hname]

private theorem quoted_of_read {x : Char} (h : IsLongest (x :: text) lexeme c)
    (hread : c.read lexeme = .ok terminal) (hx : x = '"' ∨ x = '\'') :
    c = closedString ∨ c = character := by
  have hmem := mem_all_of_mem_pattern h.accepted
  have hpos : c.extent (x :: text) ≠ 0 := by
    obtain ⟨rest, hrest⟩ := h.stands
    have hle := length_le_extent h.accepted rest
    rw [hrest] at hle
    have hlength := List.length_pos_iff.2 (ne_nil_of_mem_pattern h.accepted)
    omega
  obtain rfl | rfl := hx
  · have hclass := (extent_of_doubleQuote text hmem).resolve_right hpos
    simp only [List.mem_cons, List.not_mem_nil, or_false] at hclass
    obtain rfl | rfl := hclass
    · exact .inl rfl
    · cases hread
  · have hclass := (extent_of_singleQuote text hmem).resolve_right hpos
    simp only [List.mem_cons, List.not_mem_nil, or_false] at hclass
    obtain rfl | rfl := hclass
    · exact .inr rfl
    · cases hread

/-- A line feed behind a text makes no longer lexeme of one that is read in the text. -/
theorem IsLongest.append_lineFeed (h : IsLongest text lexeme c) (hne : text ≠ [])
    (hread : c.read lexeme = .ok terminal) (rest : List Char) :
    IsLongest (text ++ '\n' :: rest) lexeme c := by
  have hstands : lexeme <+: text ++ '\n' :: rest := h.stands.trans (List.prefix_append ..)
  obtain ⟨x, tail, rfl⟩ := List.exists_cons_of_ne_nil hne
  by_cases hquote : x = '"' ∨ x = '\''
  · -- A quoted lexeme is the longest wherever it stands.
    obtain rfl | rfl := quoted_of_read h hread hquote
    · obtain ⟨_, hfront, rfl⟩ := mem_mul_singleton.1 h.accepted
      obtain ⟨body, hbody, rfl⟩ := mem_singleton_mul.1 hfront
      exact isLongest_closedString hbody hstands
    · exact isLongest_character h.accepted hstands
  · refine ⟨hstands, h.accepted, fun d word hword hd ↦ ?_⟩
    obtain hshort | ⟨more, rfl⟩ :=
      List.prefix_or_prefix_of_prefix hword (List.prefix_append (x :: tail) ('\n' :: rest))
    · exact h.longest d word hshort hd
    · cases more with
      | nil => exact h.longest d _ (by rw [List.append_nil]) hd
      | cons y more =>
        have hy : y = '\n' := (List.cons_prefix_cons.1 ((List.prefix_append_right_inj _).1 hword)).1
        obtain heq | ⟨z, rest', heq, hz⟩ := lineFeed_of_mem_pattern hd (by simp [hy])
        · simp at heq
        · cases heq
          exact absurd hz hquote

/-- What is read in a text is read before a line feed behind it. -/
theorem front_append_lineFeed (h : front text = .ok (terminal, lexeme)) (hne : text ≠ [])
    (rest : List Char) : front (text ++ '\n' :: rest) = .ok (terminal, lexeme) := by
  obtain ⟨c, hlongest, hread⟩ := isLongest_of_front h
  rw [← h]
  exact front_congr (hlongest.append_lineFeed hne hread rest) hlongest

/-! ### Scanning over a line break -/

/-- The tokens of a text stand before those of what comes behind it on further lines. -/
theorem scan_append_lineFeed (h : scan file 0 place text = .ok tokens) (rest : List Char) :
    ∃ row, tokens =
        row ++ [⟨⟨.endOfInput, .none⟩, (text.foldl Place.after place).inFile file⟩] ∧
      scan file 0 place (text ++ '\n' :: rest) =
        (scan file 0 (text.foldl Place.after place) ('\n' :: rest)).map (row ++ ·) := by
  induction hn : text.length using Nat.strong_induction_on generalizing text place tokens with
  | _ n ih =>
    cases text with
    | nil =>
      rw [scan_nil] at h
      cases h
      exact ⟨[], rfl, (congrFun Except.map_id _).symm⟩
    | cons c tail =>
      cases hc : isBlank c with
      | true =>
        rw [scan_blank hc] at h
        rw [List.cons_append, scan_blank hc]
        exact ih tail.length (hn ▸ Nat.lt_succ_self _) h rfl
      | false =>
        rw [scan_front hc] at h
        cases hfront : front (c :: tail) with
        | error fault =>
          rw [hfront] at h
          cases h
        | ok found =>
          obtain ⟨terminal, lexeme⟩ := found
          obtain ⟨d, hlongest, -⟩ := isLongest_of_front hfront
          have hlength := List.length_pos_iff.2 (ne_nil_of_mem_pattern hlongest.accepted)
          have hbehind := front_append_lineFeed hfront (List.cons_ne_nil _ _) rest
          obtain ⟨later, hlater⟩ := hlongest.stands
          rw [hfront, ← hlater] at h
          dsimp only at h
          rw [List.drop_left] at h
          cases hscan : scan file 0 (lexeme.foldl Place.after place) later with
          | error error =>
            rw [hscan] at h
            cases h
          | ok found =>
            rw [hscan] at h
            cases h
            have hlt : later.length < n := by
              rw [← hn, ← hlater, List.length_append]
              omega
            obtain ⟨row, rfl, hrow⟩ := ih later.length hlt hscan rfl
            refine ⟨⟨terminal, place.inFile file⟩ :: row, ?_, ?_⟩
            · rw [← hlater, List.foldl_append]
              rfl
            · rw [List.cons_append, scan_front hc, ← List.cons_append, hbehind, ← hlater,
                List.foldl_append, List.append_assoc]
              dsimp only
              rw [List.drop_left, hrow]
              cases scan file 0 (later.foldl Place.after (lexeme.foldl Place.after place))
                ('\n' :: rest) <;> rfl

end Token

/-! ### Further down -/

/-- The location so many rows and bytes further down. -/
def Location.down (rows bytes : Nat) : Location → Location
  | concrete file row column offset => concrete file (row + rows) column (offset + bytes)
  | generated file => generated file

/-- The token so many rows and bytes further down. -/
def Token.down (rows bytes : Nat) (token : Token) : Token :=
  { token with location := token.location.down rows bytes }

/-- The error so many rows and bytes further down. -/
def LexicalError.down (rows bytes : Nat) (error : LexicalError) : LexicalError :=
  { error with location := error.location.down rows bytes }

/-- The place so many rows and bytes further down. -/
def Place.down (rows bytes : Nat) (place : Place) : Place :=
  ⟨place.row + rows, place.column, place.offset + bytes⟩

private theorem Place.after_down (rows bytes : Nat) (place : Place) (c : Char) :
    (place.down rows bytes).after c = (place.after c).down rows bytes := by
  unfold after down
  split
  · simp only [Nat.add_right_comm]
  · simp only [Nat.add_right_comm]

namespace Token

/-- What is read of a text, so many rows and bytes further down. -/
def resultDown (rows bytes : Nat) :
    Except LexicalError (List Token) → Except LexicalError (List Token)
  | .ok tokens => .ok (tokens.map (down rows bytes))
  | .error error => .error (error.down rows bytes)

attribute [local irreducible] LexemeClass.longest LexemeClass.read

/-- Scanning a text from further down finds the same, further down. -/
theorem scan_down (file : String) (rows bytes pending : Nat) (place : Place) (text : List Char) :
    scan file pending (place.down rows bytes) text =
      resultDown rows bytes (scan file pending place text) := by
  induction text generalizing pending place with
  | nil =>
    rw [scan_nil, scan_nil]
    rfl
  | cons c rest ih =>
    cases pending with
    | succ pending => rw [scan_succ, scan_succ, Place.after_down, ih]
    | zero =>
      rw [scan_zero, scan_zero, Place.after_down]
      simp only [ih]
      split
      · rfl
      · split
        · rfl
        · next lexemeClass length _ =>
          cases lexemeClass.read ((c :: rest).take length) with
          | error fault => rfl
          | ok terminal => cases scan file (length - 1) (place.after c) rest <;> rfl

/-- Reading is cut at a line break: a text that is read, a line feed and another text give the
tokens of the first without the end of its input, a line end there, and what is read of the second,
further down by the rows and the bytes of the first and of the line feed, be it tokens or an
error. -/
theorem ofSource_append_lineFeed {file first second : String} {row : List Token} {stop : Location}
    (h : ofSource file first = .ok (row ++ [⟨⟨.endOfInput, .none⟩, stop⟩])) :
    ofSource file (first ++ "\n" ++ second) =
      match ofSource file second with
      | .ok later => .ok (row ++ ⟨⟨.endOfLine, .none⟩, stop⟩ ::
          later.map (down (1 + first.toList.count '\n') (first.utf8ByteSize + 1)))
      | .error error =>
        .error (error.down (1 + first.toList.count '\n') (first.utf8ByteSize + 1)) := by
  have hbehind : first.toList.foldl Place.after .start = .behind first.toList := by
    rw [← Place.behind_nil, Place.foldl_after_behind, List.nil_append]
  have hoffset : (Place.behind first.toList).offset = first.utf8ByteSize :=
    congrArg String.utf8ByteSize String.ofList_toList
  have hstart : (Place.behind first.toList).after '\n' =
      Place.start.down (1 + first.toList.count '\n') (first.utf8ByteSize + 1) := by
    have hbyte : '\n'.utf8Size = 1 := rfl
    rw [← hoffset]
    simp [Place.after, Place.down, Place.start, Place.behind, Nat.add_comm, hbyte]
  obtain ⟨found, hfound, hscan⟩ := scan_append_lineFeed h second.toList
  obtain ⟨rfl, hlast⟩ := List.append_inj' hfound rfl
  cases hlast
  rw [hbehind, scan_lineFeed, hstart, scan_down] at hscan
  have hsource : (first ++ "\n" ++ second).toList = first.toList ++ '\n' :: second.toList := by
    simp
  rw [hbehind]
  unfold ofSource
  rw [hsource, hscan]
  cases scan file 0 .start second.toList <;> rfl

/-- Behind a string that holds a line feed and a character of two bytes, a name stands in the third
row. -/
theorem ofSource_append_lineFeed_string :
    ofSource "f" "\"ä\n\"" = .ok ([⟨⟨.string, .text "ä\n"⟩, .concrete "f" 1 1 0⟩] ++
        [⟨⟨.endOfInput, .none⟩, .concrete "f" 2 2 5⟩]) ∧
      ofSource "f" ("\"ä\n\"" ++ "\n" ++ " b") =
        .ok [⟨⟨.string, .text "ä\n"⟩, .concrete "f" 1 1 0⟩,
          ⟨⟨.endOfLine, .none⟩, .concrete "f" 2 2 5⟩,
          ⟨⟨.identifier, .text "b"⟩, .concrete "f" 3 2 7⟩,
          ⟨⟨.endOfInput, .none⟩, .concrete "f" 3 3 8⟩] := by
  have hfirst : ofSource "f" "\"ä\n\"" =
      .ok ([⟨⟨.string, .text "ä\n"⟩, .concrete "f" 1 1 0⟩] ++
        [⟨⟨.endOfInput, .none⟩, .concrete "f" 2 2 5⟩]) := by decide +kernel
  have hsecond : ofSource "f" " b" = .ok [⟨⟨.identifier, .text "b"⟩, .concrete "f" 1 2 1⟩,
      ⟨⟨.endOfInput, .none⟩, .concrete "f" 1 3 2⟩] := by decide +kernel
  refine ⟨hfirst, ?_⟩
  rw [ofSource_append_lineFeed hfirst, hsecond]
  decide

end Token

end Offside
