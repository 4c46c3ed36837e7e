import Offside.Proofs.Source.Pattern

/-!
# Lexemes of two classes

The patterns of two classes have no word in common, except that a keyword, a truth value or a lone
underscore is also spelled as a name (`LexemeClass.eq_of_mem_pattern`).
-/

namespace Offside

open Lexeme LexemeClass
open scoped Computability

namespace LexemeClass

variable {c d : LexemeClass} {word rest : List Char}

private theorem head_of_many {digits : List Char} (h : digits ∈ many Char.isDigit)
    (rest : List Char) : ∃ x tail, x.isDigit = true ∧ digits ++ rest = x :: tail := by
  obtain ⟨hne, hall⟩ := mem_many.1 h
  obtain ⟨x, digits, rfl⟩ := List.exists_cons_of_ne_nil hne
  exact ⟨x, digits ++ rest, hall x List.mem_cons_self, rfl⟩

private theorem head_of_number (hc : c ∈ [decimal, hexadecimal, binary, float])
    (h : word ∈ c.pattern) : ∃ x tail, x.isDigit = true ∧ word = x :: tail := by
  cases c with
  | decimal => simpa using head_of_many h []
  | hexadecimal | binary =>
    obtain ⟨_, _, -, -, rfl⟩ := mem_based.1 h
    exact ⟨_, _, rfl, rfl⟩
  | float =>
    obtain h | h := h
    · rw [mul_assoc, mul_assoc] at h
      obtain ⟨whole, hwhole, rest, -, rfl⟩ := Language.mem_mul.1 h
      exact head_of_many hwhole rest
    · obtain ⟨whole, hwhole, rest, -, rfl⟩ := Language.mem_mul.1 h
      exact head_of_many hwhole rest
  | _ => simp at hc

-- The class of numbers that a lexeme of one belongs to: the second character tells of a base, and
-- what has no base is a decimal if it has only digits.
private def numberClass (word : List Char) : LexemeClass :=
  match word[1]? with
  | some 'x' | some 'X' => hexadecimal
  | some 'b' | some 'B' => binary
  | _ => if word.all Char.isDigit then decimal else float

private theorem numberClass_of_second
    (h : ∀ x, word[1]? = some x → x.isDigit = true ∨ x = '.' ∨ x = 'e' ∨ x = 'E') :
    numberClass word = if word.all Char.isDigit then decimal else float := by
  have hne (y : Char) (hy : (y.isDigit || y == '.' || y == 'e' || y == 'E') = false) :
      word[1]? ≠ some y := by
    intro heq
    obtain h | rfl | rfl | rfl := h y heq
    · simp [h] at hy
    all_goals cases hy
  unfold numberClass
  split
  · exact absurd ‹_› (hne 'x' (by decide))
  · exact absurd ‹_› (hne 'X' (by decide))
  · exact absurd ‹_› (hne 'b' (by decide))
  · exact absurd ‹_› (hne 'B' (by decide))
  · rfl

private theorem numberClass_float {whole tail : List Char} {x : Char}
    (h : whole ∈ many Char.isDigit) (hx : x = '.' ∨ x = 'e' ∨ x = 'E') :
    numberClass (whole ++ x :: tail) = float := by
  obtain ⟨hne, hall⟩ := mem_many.1 h
  have hdigit : x.isDigit = false := by obtain rfl | rfl | rfl := hx <;> rfl
  rw [numberClass_of_second, if_neg (by simp [hdigit])]
  obtain ⟨first, whole, rfl⟩ := List.exists_cons_of_ne_nil hne
  intro y hy
  cases whole with
  | nil =>
    cases hy
    exact .inr hx
  | cons second whole =>
    cases hy
    exact .inl (hall _ (by simp))

private theorem numberClass_of_mem_pattern (hc : c ∈ [decimal, hexadecimal, binary, float])
    (h : word ∈ c.pattern) : numberClass word = c := by
  cases c with
  | decimal =>
    have hall := (mem_many.1 h).2
    rw [numberClass_of_second fun x hx ↦ .inl (hall x (List.mem_of_getElem? hx)),
      if_pos (List.all_eq_true.2 hall)]
  | hexadecimal | binary =>
    obtain ⟨mark, _, rfl | rfl, -, rfl⟩ := mem_based.1 h <;> rfl
  | float =>
    obtain h | h := h
    · rw [mul_assoc, mul_assoc] at h
      obtain ⟨whole, hwhole, _, hrest, rfl⟩ := Language.mem_mul.1 h
      obtain ⟨_, -, rfl⟩ := mem_singleton_mul.1 hrest
      exact numberClass_float hwhole (.inl rfl)
    · obtain ⟨whole, hwhole, _, hrest, rfl⟩ := Language.mem_mul.1 h
      obtain ⟨mark, _, _, hmark, -, -, rfl⟩ := mem_exponent.1 hrest
      exact numberClass_float hwhole (.inr hmark)
  | _ => simp at hc

-- The class that a lexeme belongs to if that class has several: its first character tells of a
-- name, of a number, and of a text in quotes.
private def told : List Char → LexemeClass
  | [] => identifier
  | x :: tail =>
    if startsName x then identifier
    else if x.isDigit then numberClass (x :: tail)
    else if x = '"' then
      if closedStringExtent (x :: tail) = 0 then openString else closedString
    else character

private theorem told_of_mem_pattern (hc : c.fixed? = none) (h : word ∈ c.pattern) :
    told word = c := by
  have hnumber (hc : c ∈ [decimal, hexadecimal, binary, float]) : told word = c := by
    have hclass := numberClass_of_mem_pattern hc h
    obtain ⟨x, tail, hx, rfl⟩ := head_of_number hc h
    simp only [told, startsName_of_isDigit hx, hx, if_true, hclass, Bool.false_eq_true, if_false]
  have hquote : startsName '"' = false := by decide
  have hsingle : startsName '\'' = false := by decide
  cases c with
  | spelled kind =>
    rw [pattern, Option.map_eq_none_iff.1 hc] at h
    cases h
  | endOfLine | boolean | loneQuote => cases hc
  | identifier =>
    obtain ⟨x, _, hx, -, rfl⟩ := mem_one_mul.1 h
    simp only [told, hx, if_true]
  | decimal | hexadecimal | binary | float => exact hnumber (by decide)
  | closedString =>
    have hle := length_le_closedStringExtent h []
    rw [List.append_nil] at hle
    have hpos := List.length_pos_iff.2 (ne_nil_of_mem_pattern h)
    obtain ⟨_, hfront, rfl⟩ := mem_mul_singleton.1 h
    obtain ⟨body, -, rfl⟩ := mem_singleton_mul.1 hfront
    have hextent : closedStringExtent ('"' :: (body ++ ['"'])) ≠ 0 :=
      Nat.ne_of_gt (Nat.lt_of_lt_of_le hpos hle)
    change told ('"' :: (body ++ ['"'])) = closedString
    simp [told, hquote, hextent]
  | openString =>
    obtain ⟨body, hbody, rfl⟩ := mem_singleton_mul.1 h
    have hlength := bodyExtent_append hbody []
    rw [List.append_nil] at hlength
    have hextent : closedStringExtent ('"' :: body) = 0 := by
      simp [closedStringExtent, hlength, bodyExtent]
    change told ('"' :: body) = openString
    simp [told, hquote, hextent]
  | character =>
    obtain ⟨_, -, -, rfl⟩ | ⟨_, -, rfl⟩ := mem_character.1 h
    all_goals simp [told, hsingle]

private theorem told_fixed : ∀ c ∈ all, ∀ spelling ∈ c.fixed?,
    told spelling = identifier ∧ c ≠ loneQuote ∨ told spelling = character := by decide +kernel

private theorem length_fixed : ∀ c ∈ all, ∀ spelling ∈ c.fixed?,
    spelling.head? ≠ some '\'' ∨ spelling = ['\''] := by decide +kernel

-- A lexeme of a class with one spelling and of one with several is spelled as a name.
private theorem eq_identifier (hc : c.fixed? = some word) (hd : d.fixed? = none)
    (h : word ∈ d.pattern) : d = identifier ∧ c ≠ loneQuote := by
  have hmem := mem_all (c := c) (by rw [hc]; rfl)
  have htold := told_of_mem_pattern hd h
  obtain hname | hcharacter := told_fixed c hmem word hc
  · rw [← htold]
    exact hname
  · rw [htold] at hcharacter
    subst hcharacter
    obtain ⟨_, -, -, rfl⟩ | ⟨_, -, rfl⟩ := mem_character.1 h
    all_goals simpa using length_fixed c hmem _ hc

/-- A word is a lexeme of one class only, unless it is spelled as a name and has a class of its
own. -/
theorem eq_of_mem_pattern (h : word ∈ c.pattern) (h' : word ∈ d.pattern) :
    c = d ∨ (d = identifier ∧ c.fixed? = some word ∧ c ≠ loneQuote) ∨
      (c = identifier ∧ d.fixed? = some word ∧ d ≠ loneQuote) := by
  cases hc : c.fixed? with
  | none =>
    cases hd : d.fixed? with
    | none => exact .inl ((told_of_mem_pattern hc h).symm.trans (told_of_mem_pattern hd h'))
    | some spelling =>
      obtain rfl := (mem_pattern_of_fixed hd).1 h'
      obtain ⟨hname, hquote⟩ := eq_identifier hd hc h
      exact .inr (.inr ⟨hname, rfl, hquote⟩)
  | some spelling =>
    obtain rfl := (mem_pattern_of_fixed hc).1 h
    cases hd : d.fixed? with
    | none =>
      obtain ⟨hname, hquote⟩ := eq_identifier hc hd h'
      exact .inr (.inl ⟨hname, rfl, hquote⟩)
    | some spelling =>
      obtain rfl := (mem_pattern_of_fixed hd).1 h'
      refine .inl (by_contra fun hne ↦ ?_)
      have hend : ∀ x, c.extension? = some x → ([] : List Char).head? ≠ some x := fun _ _ ↦ nofun
      have hlt := extent_lt_of_fixed hc hd hne hend
      exact absurd (length_le_extent h' []) (Nat.not_le.2 hlt)

end LexemeClass

end Offside
