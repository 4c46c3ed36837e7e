import Mathlib.Computability.Language
import Offside.Proofs.Source.Lexeme

/-!
# Patterns of lexemes

The pattern of a class is the language of its lexemes (`LexemeClass.pattern`): it says which words
they are and nothing about how one is found in a text. What a class measures at the front of a text
is one of its lexemes (`LexemeClass.begins_extent`), and no lexeme of the class that stands there is
longer (`LexemeClass.length_le_extent`).
-/

namespace Offside

open Lexeme LexemeClass
open scoped Computability

namespace Lexeme

/-- The words of one character that satisfies a test. -/
def one (test : Char → Bool) : Language Char := {word | ∃ c, test c = true ∧ word = [c]}

/-- The words of one or more characters that satisfy a test. -/
def many (test : Char → Bool) : Language Char := one test * (one test)∗

/-- A zero, one of two marks for the base, and digits of that base. -/
def based (lower upper : Char) (digit : Char → Bool) : Language Char :=
  {['0']} * one (fun c ↦ c == lower || c == upper) * many digit

/-- The mark of an exponent, an optional sign, and digits. -/
def exponent : Language Char :=
  one (fun c ↦ c == 'e' || c == 'E') * (1 + one fun c ↦ c == '+' || c == '-') * many Char.isDigit

/-- A character between two of `quote`: neither that quote nor a backslash, or a backslash and a
character that may stand behind one. -/
def quotable (quote : Char) (escapes : Char → Bool) : Language Char :=
  one (fun c ↦ c != quote && c != '\\') + {['\\']} * one escapes

/-- The character does not end a line. -/
def staysInLine (c : Char) : Bool := c != '\n'

end Lexeme

/-- The words that are lexemes of the class. -/
def LexemeClass.pattern : LexemeClass → Language Char
  | spelled kind =>
    match kind.spelling? with
    | some spelling => {spelling.toList}
    | none => 0
  | endOfLine => {['\n']}
  | boolean value => {truthSpelling value}
  | identifier => one startsName * (one continuesName)∗
  | decimal => many Char.isDigit
  | hexadecimal => based 'x' 'X' isHexDigit
  | binary => based 'b' 'B' isBinaryDigit
  | float =>
    many Char.isDigit * {['.']} * many Char.isDigit * (1 + exponent) +
      many Char.isDigit * exponent
  | closedString => {['"']} * (quotable '"' staysInLine)∗ * {['"']}
  | openString => {['"']} * (quotable '"' staysInLine)∗
  | character => {['\'']} * quotable '\'' staysInLine * {['\'']}
  | loneQuote => {['\'']}

/-! ### Words of the languages -/

namespace Lexeme

variable {test : Char → Bool} {language : Language Char} {word front : List Char} {x : Char}

/-- A word of one character and a language begins with such a character. -/
theorem mem_one_mul : word ∈ one test * language ↔
    ∃ c rest, test c = true ∧ rest ∈ language ∧ word = c :: rest := by
  rw [Language.mem_mul]
  constructor
  · rintro ⟨_, ⟨c, hc, rfl⟩, rest, hrest, rfl⟩
    exact ⟨c, rest, hc, hrest, rfl⟩
  · rintro ⟨c, rest, hc, hrest, rfl⟩
    exact ⟨[c], ⟨c, hc, rfl⟩, rest, hrest, rfl⟩

/-- A word of a front and a language begins with that front. -/
theorem mem_singleton_mul : word ∈ ({front} : Language Char) * language ↔
    ∃ rest ∈ language, word = front ++ rest := by
  rw [Language.mem_mul]
  constructor
  · rintro ⟨_, rfl, rest, hrest, rfl⟩
    exact ⟨rest, hrest, rfl⟩
  · rintro ⟨rest, hrest, rfl⟩
    exact ⟨front, rfl, rest, hrest, rfl⟩

/-- A word of a language and an end ends with that end. -/
theorem mem_mul_singleton : word ∈ language * ({front} : Language Char) ↔
    ∃ rest ∈ language, word = rest ++ front := by
  rw [Language.mem_mul]
  constructor
  · rintro ⟨rest, hrest, _, rfl, rfl⟩
    exact ⟨rest, hrest, rfl⟩
  · rintro ⟨rest, hrest, rfl⟩
    exact ⟨rest, hrest, front, rfl, rfl⟩

private theorem mem_one_kstar : word ∈ (one test)∗ ↔ ∀ c ∈ word, test c = true := by
  induction word with
  | nil => simp [Language.nil_mem_kstar]
  | cons x word ih =>
    rw [← Language.one_add_self_mul_kstar_eq_kstar, List.forall_mem_cons, ← ih]
    constructor
    · rintro (h | h)
      · cases h
      · obtain ⟨c, rest, hc, hrest, heq⟩ := mem_one_mul.1 h
        cases heq
        exact ⟨hc, hrest⟩
    · exact fun h ↦ .inr (mem_one_mul.2 ⟨x, word, h.1, h.2, rfl⟩)

/-- Many characters are at least one, and all of the kind. -/
theorem mem_many : word ∈ many test ↔ word ≠ [] ∧ ∀ c ∈ word, test c = true := by
  unfold many
  rw [mem_one_mul]
  constructor
  · rintro ⟨c, rest, hc, hrest, rfl⟩
    exact ⟨List.cons_ne_nil _ _, List.forall_mem_cons.2 ⟨hc, mem_one_kstar.1 hrest⟩⟩
  · rintro ⟨hne, hall⟩
    obtain ⟨c, rest, rfl⟩ := List.exists_cons_of_ne_nil hne
    rw [List.forall_mem_cons] at hall
    exact ⟨c, rest, hall.1, mem_one_kstar.2 hall.2, rfl⟩

/-- A number of a base is a zero, a mark and digits. -/
theorem mem_based {lower upper : Char} {digit : Char → Bool} : word ∈ based lower upper digit ↔
    ∃ mark digits, (mark = lower ∨ mark = upper) ∧ digits ∈ many digit ∧
      word = '0' :: mark :: digits := by
  unfold based
  rw [mul_assoc, mem_singleton_mul]
  constructor
  · rintro ⟨_, hrest, rfl⟩
    obtain ⟨mark, digits, hmark, hdigits, rfl⟩ := mem_one_mul.1 hrest
    exact ⟨mark, digits, by simpa using hmark, hdigits, rfl⟩
  · rintro ⟨mark, digits, hmark, hdigits, rfl⟩
    exact ⟨_, mem_one_mul.2 ⟨mark, digits, by simpa using hmark, hdigits, rfl⟩, rfl⟩

/-- An exponent is a mark, a sign or none, and digits. -/
theorem mem_exponent : word ∈ exponent ↔
    ∃ mark sign digits, (mark = 'e' ∨ mark = 'E') ∧ (sign = [] ∨ sign = ['+'] ∨ sign = ['-']) ∧
      digits ∈ many Char.isDigit ∧ word = mark :: (sign ++ digits) := by
  unfold exponent
  rw [mul_assoc, mem_one_mul]
  constructor
  · rintro ⟨mark, _, hmark, hrest, rfl⟩
    obtain ⟨sign, hsign, digits, hdigits, rfl⟩ := Language.mem_mul.1 hrest
    refine ⟨mark, sign, digits, by simpa using hmark, ?_, hdigits, rfl⟩
    obtain hsign | ⟨c, hc, rfl⟩ := hsign
    · exact .inl hsign
    · simpa using hc
  · rintro ⟨mark, sign, digits, hmark, hsign, hdigits, rfl⟩
    refine ⟨mark, _, by simpa using hmark, Language.mem_mul.2 ⟨sign, ?_, digits, hdigits, rfl⟩, rfl⟩
    obtain rfl | rfl | rfl := hsign
    · exact .inl rfl
    · exact .inr ⟨'+', rfl, rfl⟩
    · exact .inr ⟨'-', rfl, rfl⟩

/-- What may stand between quotes is a plain character or an escape. -/
theorem mem_quotable {quote : Char} {escapes : Char → Bool} : word ∈ quotable quote escapes ↔
    (∃ c, c ≠ quote ∧ c ≠ '\\' ∧ word = [c]) ∨ ∃ c, escapes c = true ∧ word = ['\\', c] := by
  unfold quotable
  rw [Language.mem_add, mem_singleton_mul]
  refine or_congr ?_ ?_
  · constructor
    · rintro ⟨c, hc, rfl⟩
      rw [Bool.and_eq_true, bne_iff_ne, bne_iff_ne] at hc
      exact ⟨c, hc.1, hc.2, rfl⟩
    · rintro ⟨c, hquote, hbackslash, rfl⟩
      refine ⟨c, ?_, rfl⟩
      rw [Bool.and_eq_true, bne_iff_ne, bne_iff_ne]
      exact ⟨hquote, hbackslash⟩
  · constructor
    · rintro ⟨_, ⟨c, hc, rfl⟩, rfl⟩
      exact ⟨c, hc, rfl⟩
    · rintro ⟨c, hc, rfl⟩
      exact ⟨[c], ⟨c, hc, rfl⟩, rfl⟩

/-- A body is empty, or one of its characters, plain or behind a backslash, stands before a body. -/
@[elab_as_elim]
theorem body_induction {quote : Char} {escapes : Char → Bool} {motive : List Char → Prop}
    (h : word ∈ (quotable quote escapes)∗) (nil : motive [])
    (plain : ∀ c rest, c ≠ quote → c ≠ '\\' → motive rest → motive (c :: rest))
    (escape : ∀ c rest, escapes c = true → motive rest → motive ('\\' :: c :: rest)) :
    motive word := by
  obtain ⟨parts, rfl, hparts⟩ := Language.mem_kstar.1 h
  clear h
  induction parts with
  | nil => exact nil
  | cons part parts ih =>
    rw [List.forall_mem_cons] at hparts
    rw [List.flatten_cons]
    obtain ⟨c, hquote, hbackslash, rfl⟩ | ⟨c, hc, rfl⟩ := mem_quotable.1 hparts.1
    · exact plain c _ hquote hbackslash (ih hparts.2)
    · exact escape c _ hc (ih hparts.2)

/-- A word of a language may stand before any number of them. -/
theorem append_mem_kstar (hfront : front ∈ language) (hword : word ∈ language∗) :
    front ++ word ∈ language∗ := by
  rw [← Language.one_add_self_mul_kstar_eq_kstar]
  exact .inr (Language.mem_mul.2 ⟨front, hfront, word, hword, rfl⟩)

/-! ### No longer prefix is accepted -/

variable {rest : List Char}

private theorem length_le_run (h : ∀ c ∈ word, test c = true) (rest : List Char) :
    word.length ≤ run test (word ++ rest) := by
  rw [run, List.takeWhile_append_of_pos h, List.length_append]
  exact Nat.le_add_right ..

private theorem length_le_basedExtent {lower upper : Char} {digit : Char → Bool}
    (h : word ∈ based lower upper digit) (rest : List Char) :
    word.length ≤ basedExtent lower upper digit (word ++ rest) := by
  obtain ⟨mark, digits, hmark, hdigits, rfl⟩ := mem_based.1 h
  obtain ⟨hne, hall⟩ := mem_many.1 hdigits
  have hle := length_le_run hall rest
  have hpos := List.length_pos_iff.2 hne
  have hrun : 0 < run digit (digits ++ rest) := by omega
  have hmark' : (decide (mark = lower) || decide (mark = upper)) = true := by simpa using hmark
  simp only [List.cons_append, basedExtent, hmark', hrun, decide_true, Bool.and_self, if_true,
    List.length_cons]
  omega

/-- What stands behind the mark of an exponent is measured with its sign. -/
theorem exponentExtent_sign {mark : Char} {sign tail : List Char} (hmark : mark = 'e' ∨ mark = 'E')
    (hsign : sign = [] ∨ sign = ['+'] ∨ sign = ['-'])
    (htail : sign = [] → tail.head? ≠ some '+' ∧ tail.head? ≠ some '-') :
    exponentExtent (mark :: (sign ++ tail)) =
      if 0 < run Char.isDigit tail then 1 + sign.length + run Char.isDigit tail else 0 := by
  have hmark' : (decide (mark = 'e') || decide (mark = 'E')) = true := by simpa using hmark
  obtain rfl | rfl | rfl := hsign
  · obtain ⟨hplus, hminus⟩ := htail rfl
    cases tail with
    | nil => simp [exponentExtent, run]
    | cons x tail =>
      have hplus' : x ≠ '+' := fun h ↦ hplus (congrArg some h)
      have hminus' : x ≠ '-' := fun h ↦ hminus (congrArg some h)
      simp [exponentExtent, hmark', hplus', hminus']
  · simp [exponentExtent, hmark']
  · simp [exponentExtent, hmark']

private theorem length_le_exponentExtent (h : word ∈ exponent) (rest : List Char) :
    word.length ≤ exponentExtent (word ++ rest) := by
  obtain ⟨mark, sign, digits, hmark, hsign, hdigits, rfl⟩ := mem_exponent.1 h
  obtain ⟨hne, hall⟩ := mem_many.1 hdigits
  have hle := length_le_run hall rest
  have hpos := List.length_pos_iff.2 hne
  have htail : (digits ++ rest).head? ≠ some '+' ∧ (digits ++ rest).head? ≠ some '-' := by
    obtain ⟨d, digits, rfl⟩ := List.exists_cons_of_ne_nil hne
    have hd := hall d List.mem_cons_self
    constructor
    · rintro ⟨⟩
      cases hd
    · rintro ⟨⟩
      cases hd
  rw [List.cons_append, List.append_assoc, exponentExtent_sign hmark hsign fun _ ↦ htail,
    if_pos (Nat.lt_of_lt_of_le hpos hle), List.length_cons, List.length_append]
  omega

/-- Digits before what is no digit are measured as they are. -/
theorem run_digits (h : word ∈ many Char.isDigit) (hx : x.isDigit = false) (rest : List Char) :
    run Char.isDigit (word ++ x :: rest) = word.length :=
  run_append (mem_many.1 h).2 fun c hc ↦ by
    cases hc
    exact hx

private theorem head_of_exponent (h : word ∈ exponent) :
    ∃ x tail, word = x :: tail ∧ x.isDigit = false ∧ x ≠ '.' := by
  obtain ⟨mark, sign, digits, hmark, -, -, rfl⟩ := mem_exponent.1 h
  refine ⟨mark, sign ++ digits, rfl, ?_⟩
  obtain rfl | rfl := hmark <;> decide

/-- Behind its digits a float is measured by its fraction and its exponent. -/
theorem floatExtent_digits {whole : List Char} (h : whole ∈ many Char.isDigit)
    (hx : x.isDigit = false) (rest : List Char) :
    floatExtent (whole ++ x :: rest) =
      if fractionExtent (x :: rest) +
        exponentExtent ((x :: rest).drop (fractionExtent (x :: rest))) = 0 then 0
      else whole.length + fractionExtent (x :: rest) +
        exponentExtent ((x :: rest).drop (fractionExtent (x :: rest))) := by
  have hne : whole.length ≠ 0 := by simpa using (mem_many.1 h).1
  simp only [floatExtent, run_digits h hx, ← List.drop_drop, List.drop_left, hne, decide_false,
    Bool.false_or, decide_eq_true_eq]

private theorem fractionExtent_point (digits : List Char) (h : 0 < run Char.isDigit digits) :
    fractionExtent ('.' :: digits) = 1 + run Char.isDigit digits := by
  simp only [fractionExtent, h, if_true]

private theorem fractionExtent_eq_zero (hx : x ≠ '.') (rest : List Char) :
    fractionExtent (x :: rest) = 0 := by
  unfold fractionExtent
  split
  · next heq => exact absurd (List.cons.inj heq).1 hx
  · rfl

private theorem length_le_floatExtent (h : word ∈ LexemeClass.float.pattern) (rest : List Char) :
    word.length ≤ floatExtent (word ++ rest) := by
  obtain h | h := h
  · obtain ⟨_, hfront, tail, htail, rfl⟩ := Language.mem_mul.1 h
    obtain ⟨_, hpoint, fraction, hfraction, rfl⟩ := Language.mem_mul.1 hfront
    obtain ⟨whole, hwhole, rfl⟩ := mem_mul_singleton.1 hpoint
    have hle := length_le_run (mem_many.1 hfraction).2 (tail ++ rest)
    have hpos := List.length_pos_iff.2 (mem_many.1 hfraction).1
    have hextent := fractionExtent_point (fraction ++ (tail ++ rest)) (by omega)
    have hfloat := floatExtent_digits hwhole (x := '.') rfl (fraction ++ (tail ++ rest))
    rw [hextent, if_neg (by omega)] at hfloat
    simp only [List.append_assoc, List.cons_append, List.nil_append, List.length_append,
      List.length_cons] at hfloat ⊢
    rw [hfloat]
    obtain rfl | htail := htail
    · rw [List.length_nil]
      omega
    · obtain ⟨x, more, heq, hx, -⟩ := head_of_exponent htail
      have hrun : run Char.isDigit (fraction ++ (tail ++ rest)) = fraction.length := by
        rw [heq, List.cons_append, run_digits hfraction hx]
      have hexponent := length_le_exponentExtent htail rest
      rw [hrun, Nat.add_comm 1, List.drop_succ_cons, List.drop_left]
      omega
  · obtain ⟨whole, hwhole, tail, htail, rfl⟩ := Language.mem_mul.1 h
    obtain ⟨x, more, rfl, hx, hpoint⟩ := head_of_exponent htail
    have hexponent := length_le_exponentExtent htail rest
    have hfloat := floatExtent_digits hwhole hx (more ++ rest)
    rw [fractionExtent_eq_zero hpoint, List.drop_zero] at hfloat
    simp only [List.append_assoc, List.cons_append, List.length_append, List.length_cons] at *
    rw [hfloat, if_neg (by omega)]
    omega

/-- A body is measured with whatever of one follows. -/
theorem bodyExtent_append (h : word ∈ (quotable '"' staysInLine)∗) (rest : List Char) :
    bodyExtent (word ++ rest) = word.length + bodyExtent rest := by
  refine body_induction h ?nil ?plain ?escape
  case nil => simp
  case plain =>
    intro c word hquote hbackslash ih
    simp [bodyExtent, hquote, hbackslash, ih]
    omega
  case escape =>
    intro c word hc ih
    have hline : c ≠ '\n' := by simpa [staysInLine] using hc
    simp only [List.cons_append, bodyExtent, hline, if_false, ih, List.length_cons]
    omega

/-- No closed string is longer than the one that is found. -/
theorem length_le_closedStringExtent (h : word ∈ closedString.pattern) (rest : List Char) :
    word.length ≤ closedStringExtent (word ++ rest) := by
  obtain ⟨_, hfront, rfl⟩ := mem_mul_singleton.1 h
  obtain ⟨body, hbody, rfl⟩ := mem_singleton_mul.1 hfront
  have hextent := bodyExtent_append hbody ('"' :: rest)
  have hquote : bodyExtent ('"' :: rest) = 0 := by simp [bodyExtent]
  rw [hquote, Nat.add_zero] at hextent
  simp only [List.append_assoc, List.cons_append, List.nil_append, closedStringExtent, hextent,
    List.getElem?_append_right (Nat.le_refl _), Nat.sub_self, List.getElem?_cons_zero, if_true,
    List.length_cons, List.length_append, List.length_nil]
  omega

private theorem length_le_openStringExtent (h : word ∈ openString.pattern) (rest : List Char) :
    word.length ≤ openStringExtent (word ++ rest) := by
  obtain ⟨body, hbody, rfl⟩ := mem_singleton_mul.1 h
  have hextent := bodyExtent_append hbody rest
  simp only [List.cons_append, List.nil_append, openStringExtent, hextent, List.length_cons]
  omega

/-- The words of the pattern of characters. -/
theorem mem_character : word ∈ character.pattern ↔
    (∃ c, c ≠ '\'' ∧ c ≠ '\\' ∧ word = ['\'', c, '\'']) ∨
      ∃ c, c ≠ '\n' ∧ word = ['\'', '\\', c, '\''] := by
  change word ∈ {['\'']} * quotable '\'' staysInLine * {['\'']} ↔ _
  rw [mem_mul_singleton]
  constructor
  · rintro ⟨_, hfront, rfl⟩
    obtain ⟨_, hinner, rfl⟩ := mem_singleton_mul.1 hfront
    obtain ⟨c, hquote, hbackslash, rfl⟩ | ⟨c, hc, rfl⟩ := mem_quotable.1 hinner
    · exact .inl ⟨c, hquote, hbackslash, rfl⟩
    · exact .inr ⟨c, by simpa [staysInLine] using hc, rfl⟩
  · rintro (⟨c, hquote, hbackslash, rfl⟩ | ⟨c, hc, rfl⟩)
    · exact ⟨['\'', c], mem_singleton_mul.2 ⟨[c],
        mem_quotable.2 (.inl ⟨c, hquote, hbackslash, rfl⟩), rfl⟩, rfl⟩
    · exact ⟨['\'', '\\', c], mem_singleton_mul.2 ⟨['\\', c],
        mem_quotable.2 (.inr ⟨c, by simpa [staysInLine] using hc, rfl⟩), rfl⟩, rfl⟩

private theorem length_le_characterExtent (h : word ∈ character.pattern) (rest : List Char) :
    word.length ≤ characterExtent (word ++ rest) := by
  obtain ⟨c, hquote, hbackslash, rfl⟩ | ⟨c, hc, rfl⟩ := mem_character.1 h
  · simp [characterExtent, hquote, hbackslash]
  · simp [characterExtent, hc]

/-! ### What is measured is accepted -/

/-- The first characters of the text, so many, are a word of the language. -/
def Begins (language : Language Char) (text : List Char) (n : Nat) : Prop :=
  n ≤ text.length ∧ text.take n ∈ language

namespace Begins

variable {other : Language Char} {text : List Char} {n m : Nat}

private theorem mul (h : Begins language text n) (h' : Begins other (text.drop n) m) :
    Begins (language * other) text (n + m) := by
  have hlength := h'.1
  rw [List.length_drop] at hlength
  have hle := h.1
  refine ⟨by omega, ?_⟩
  rw [List.take_add]
  exact Language.mem_mul.2 ⟨_, h.2, _, h'.2, rfl⟩

/-- A word before what begins with a repetition makes a longer repetition. -/
theorem step (h : Begins language text n) (h' : Begins language∗ (text.drop n) m) :
    Begins language∗ text (n + m) := by
  obtain ⟨hlength, hmem⟩ := h.mul h'
  refine ⟨hlength, ?_⟩
  rw [← Language.one_add_self_mul_kstar_eq_kstar]
  exact .inr hmem

private theorem singleton (word rest : List Char) : Begins {word} (word ++ rest) word.length :=
  ⟨by simp, by rw [List.take_left]; rfl⟩

private theorem one (h : test x = true) (rest : List Char) : Begins (one test) (x :: rest) 1 :=
  ⟨by simp, x, h, rfl⟩

private theorem epsilon (text : List Char) : Begins 1 text 0 := ⟨Nat.zero_le _, rfl⟩

private theorem inl (h : Begins language text n) : Begins (language + other) text n :=
  ⟨h.1, .inl h.2⟩

private theorem inr (h : Begins other text n) : Begins (language + other) text n := ⟨h.1, .inr h.2⟩

private theorem run (test : Char → Bool) (text : List Char) :
    Begins (Lexeme.one test)∗ text (run test text) := by
  refine ⟨(List.takeWhile_sublist _).length_le, mem_one_kstar.2 ?_⟩
  rw [Lexeme.run, ← List.prefix_iff_eq_take.1 (List.takeWhile_prefix _)]
  exact List.all_eq_true.1 List.all_takeWhile

private theorem many (h : 0 < Lexeme.run test text) :
    Begins (many test) text (Lexeme.run test text) := by
  obtain ⟨hlength, hmem⟩ := Begins.run test text
  refine ⟨hlength, mem_many.2 ⟨fun hnil ↦ ?_, mem_one_kstar.1 hmem⟩⟩
  rw [← List.length_eq_zero_iff, List.length_take] at hnil
  omega

private theorem based {lower upper : Char} {digit : Char → Bool}
    (h : 0 < basedExtent lower upper digit text) :
    Begins (based lower upper digit) text (basedExtent lower upper digit text) := by
  revert h
  unfold basedExtent
  split
  · next mark rest =>
    dsimp only
    split
    · next hmark =>
      rw [Bool.and_eq_true, decide_eq_true_eq] at hmark
      have hone : Begins (Lexeme.one fun c ↦ c == lower || c == upper) (mark :: rest) 1 :=
        .one hmark.1 rest
      exact fun _ ↦ ((singleton ['0'] (mark :: rest)).mul hone).mul (.many hmark.2)
    · nofun
  · nofun

-- An exponent begins with its mark and, behind a sign of so many characters, holds digits.
private theorem exponent_of_sign {mark : Char} {rest : List Char} {sign : Nat}
    (hsign : Begins (1 + Lexeme.one fun c ↦ c == '+' || c == '-') rest sign)
    (h : ((decide (mark = 'e') || decide (mark = 'E')) &&
      decide (0 < Lexeme.run Char.isDigit (rest.drop sign))) = true) :
    Begins exponent (mark :: rest) (1 + sign + Lexeme.run Char.isDigit (rest.drop sign)) := by
  rw [Bool.and_eq_true, decide_eq_true_eq] at h
  have hone : Begins (Lexeme.one fun c ↦ c == 'e' || c == 'E') (mark :: rest) 1 := .one h.1 rest
  refine (hone.mul hsign).mul ?_
  rw [← List.drop_drop]
  exact .many h.2

private theorem exponent (h : 0 < exponentExtent text) :
    Begins exponent text (exponentExtent text) := by
  revert h
  unfold exponentExtent
  split
  · next mark rest =>
    dsimp only
    -- Either there is a sign, which is one of two, or there is none.
    split
    · next rest =>
      split
      · next h => exact fun _ ↦ exponent_of_sign (.inr (.one rfl rest)) h
      · nofun
    · next rest =>
      split
      · next h => exact fun _ ↦ exponent_of_sign (.inr (.one rfl rest)) h
      · nofun
    · split
      · next h => exact fun _ ↦ exponent_of_sign (.inl (.epsilon rest)) h
      · nofun
  · nofun

private theorem fraction (h : 0 < fractionExtent text) :
    Begins ({['.']} * Lexeme.many Char.isDigit) text (fractionExtent text) := by
  revert h
  unfold fractionExtent
  split
  · next rest =>
    dsimp only
    split
    · next hpos => exact fun _ ↦ (singleton ['.'] rest).mul (.many hpos)
    · nofun
  · nofun

private theorem float (h : 0 < floatExtent text) :
    Begins float.pattern text (floatExtent text) := by
  revert h
  unfold floatExtent
  dsimp only
  rw [← List.drop_drop]
  split
  · nofun
  · next hne =>
    rw [Bool.or_eq_true, decide_eq_true_eq, decide_eq_true_eq, not_or] at hne
    have hwhole := Begins.many (Nat.pos_of_ne_zero hne.1)
    intro
    obtain hzero | hpos := Nat.eq_zero_or_pos
      (fractionExtent (text.drop (Lexeme.run Char.isDigit text)))
    · rw [hzero, Nat.zero_add, List.drop_zero] at hne
      rw [hzero, List.drop_zero, Nat.add_zero]
      exact .inr (hwhole.mul (.exponent (Nat.pos_of_ne_zero hne.2)))
    · have hfront := hwhole.mul (.fraction hpos)
      rw [← mul_assoc] at hfront
      refine .inl (hfront.mul ?_)
      rw [← List.drop_drop]
      obtain hzero | hpos := Nat.eq_zero_or_pos (exponentExtent
        ((text.drop (Lexeme.run Char.isDigit text)).drop
          (fractionExtent (text.drop (Lexeme.run Char.isDigit text)))))
      · rw [hzero]
        exact .inl (.epsilon _)
      · exact .inr (.exponent hpos)

/-- The longest body of a string is found. -/
theorem body (text : List Char) : Begins (quotable '"' staysInLine)∗ text (bodyExtent text) := by
  fun_induction bodyExtent text with
  | case1 | case3 | case5 => exact ⟨Nat.zero_le _, Language.nil_mem_kstar _⟩
  | case2 c rest hline ih =>
    have hc : staysInLine c = true := by simpa [staysInLine] using hline
    have hescape : Begins ({['\\']} * Lexeme.one staysInLine) ('\\' :: c :: rest) (1 + 1) :=
      (singleton ['\\'] (c :: rest)).mul (.one hc rest)
    exact step (.inr hescape) ih
  | case4 c rest _ hplain ih =>
    have hc : (c != '"' && c != '\\') = true := by simpa using hplain
    exact step (.inl (.one hc rest)) ih

private theorem closedString (h : 0 < closedStringExtent text) :
    Begins closedString.pattern text (closedStringExtent text) := by
  revert h
  unfold closedStringExtent
  split
  · next rest =>
    dsimp only
    split
    · next hquote =>
      obtain ⟨hlt, hget⟩ := List.getElem?_eq_some_iff.1 hquote
      have hfront := (singleton ['"'] rest).mul (.body rest)
      have hbehind : ('"' :: rest).drop (['"'].length + bodyExtent rest) =
          ['"'] ++ rest.drop (bodyExtent rest + 1) := by
        rw [Nat.add_comm, List.length_singleton, List.drop_succ_cons,
          List.drop_eq_getElem_cons hlt, hget]
        rfl
      have hclosed := hfront.mul (hbehind ▸ singleton ['"'] (rest.drop (bodyExtent rest + 1)))
      rw [List.length_singleton, Nat.add_right_comm] at hclosed
      rw [Nat.add_comm (bodyExtent rest)]
      exact fun _ ↦ hclosed
    · nofun
  · nofun

private theorem openString (h : 0 < openStringExtent text) :
    Begins openString.pattern text (openStringExtent text) := by
  revert h
  unfold openStringExtent
  split
  · next rest => exact fun _ ↦ (singleton ['"'] rest).mul (.body rest)
  · nofun

private theorem character (h : 0 < characterExtent text) :
    Begins character.pattern text (characterExtent text) := by
  revert h
  unfold characterExtent
  split
  · next c rest =>
    split
    · nofun
    · next hline => exact fun _ ↦ ⟨by simp, mem_character.2 (.inr ⟨c, hline, rfl⟩)⟩
  · next c rest _ =>
    split
    · nofun
    · next hplain =>
      rw [Bool.or_eq_true, decide_eq_true_eq, decide_eq_true_eq, not_or] at hplain
      exact fun _ ↦ ⟨by simp, mem_character.2 (.inl ⟨c, hplain.1, hplain.2, rfl⟩)⟩
  · nofun

end Begins

end Lexeme

namespace LexemeClass

variable {c : LexemeClass} {word text : List Char}

private theorem length_le_spellingExtent (word rest : List Char) :
    word.length ≤ spellingExtent word (word ++ rest) := by
  rw [spellingExtent, if_pos (List.isPrefixOf_iff_prefix.2 (List.prefix_append ..))]

/-- The pattern of a class of one spelling. -/
theorem mem_pattern_of_fixed {spelling : List Char} (h : c.fixed? = some spelling) :
    word ∈ c.pattern ↔ word = spelling := by
  cases c with
  | spelled kind =>
    obtain ⟨_, hkind, rfl⟩ := Option.map_eq_some_iff.1 h
    simp only [pattern, hkind]
    rfl
  | endOfLine | boolean | loneQuote =>
    cases h
    rfl
  | _ => cases h

/-- No lexeme is empty. -/
theorem ne_nil_of_mem_pattern (h : word ∈ c.pattern) : word ≠ [] := by
  rintro rfl
  cases c with
  | spelled kind =>
    cases hkind : kind.spelling? with
    | some spelling =>
      have hfixed : (spelled kind).fixed? = some spelling.toList := by rw [fixed?, hkind]; rfl
      have hpos := length_pos_of_fixed hfixed
      rw [← (mem_pattern_of_fixed hfixed).1 h] at hpos
      cases hpos
    | none =>
      rw [pattern, hkind] at h
      cases h
  | boolean value => cases value <;> cases h
  | endOfLine | loneQuote => cases h
  | identifier =>
    obtain ⟨_, _, -, -, heq⟩ := mem_one_mul.1 h
    cases heq
  | decimal => exact (mem_many.1 h).1 rfl
  | hexadecimal | binary =>
    obtain ⟨_, _, -, -, heq⟩ := mem_based.1 h
    cases heq
  | float =>
    obtain h | h := h
    · obtain ⟨_, hfront, tail, -, heq⟩ := Language.mem_mul.1 h
      obtain ⟨_, -, fraction, hfraction, rfl⟩ := Language.mem_mul.1 hfront
      simp only [List.append_eq_nil_iff] at heq
      exact (mem_many.1 hfraction).1 heq.1.2
    · obtain ⟨whole, hwhole, tail, -, heq⟩ := Language.mem_mul.1 h
      exact (mem_many.1 hwhole).1 (List.append_eq_nil_iff.1 heq).1
  | closedString | character =>
    obtain ⟨_, -, heq⟩ := mem_mul_singleton.1 h
    simp at heq
  | openString =>
    obtain ⟨_, -, heq⟩ := mem_singleton_mul.1 h
    cases heq

/-- The kind of the terminals that lexemes of the class write. -/
def kind : LexemeClass → TokenKind
  | spelled kind => kind
  | endOfLine => .endOfLine
  | boolean _ => .boolean
  | identifier => .identifier
  | decimal | hexadecimal | binary => .integer
  | float => .float
  | closedString | openString => .string
  | character | loneQuote => .character

/-- A lexeme is read as a terminal of the kind of its class. -/
theorem kind_of_read {terminal : Terminal} (h : c.read word = .ok terminal) :
    terminal.kind = c.kind := by
  cases c with
  | float | closedString | character =>
    simp only [read] at h
    split at h <;> cases h
    rfl
  | openString | loneQuote => cases h
  | _ =>
    cases h
    rfl

/-- A class with a lexeme and the kind of no symbol or keyword is no class of such a one. -/
theorem kind_ne_of_mem_pattern {kind : TokenKind} (h : word ∈ c.pattern)
    (hkind : kind.spelling? = none) : c ≠ spelled kind := by
  rintro rfl
  rw [pattern, hkind] at h
  cases h

/-- Every class with a lexeme is tried. -/
theorem mem_all_of_mem_pattern (h : word ∈ c.pattern) : c ∈ all := by
  cases c with
  | spelled kind =>
    refine mem_all ?_
    cases hkind : kind.spelling? with
    | some spelling => rw [fixed?, hkind]; rfl
    | none =>
      rw [pattern, hkind] at h
      cases h
  | boolean value => exact mem_all rfl
  | _ => decide

/-- A class measures a text at least as far as its lexemes reach. -/
theorem length_le_extent (h : word ∈ c.pattern) (rest : List Char) :
    word.length ≤ c.extent (word ++ rest) := by
  cases c with
  | spelled kind =>
    cases hkind : kind.spelling? with
    | some spelling =>
      rw [pattern, hkind] at h
      cases h
      rw [extent, hkind]
      exact length_le_spellingExtent ..
    | none =>
      rw [pattern, hkind] at h
      cases h
  | endOfLine | boolean | loneQuote =>
    cases h
    exact length_le_spellingExtent ..
  | identifier =>
    obtain ⟨x, front, hx, hfront, rfl⟩ := mem_one_mul.1 h
    have hle := length_le_run (mem_one_kstar.1 hfront) rest
    simp only [List.cons_append, extent, hx, if_true, List.length_cons]
    omega
  | decimal => exact length_le_run (mem_many.1 h).2 rest
  | hexadecimal | binary => exact length_le_basedExtent h rest
  | float => exact length_le_floatExtent h rest
  | closedString => exact length_le_closedStringExtent h rest
  | openString => exact length_le_openStringExtent h rest
  | character => exact length_le_characterExtent h rest

private theorem begins_spellingExtent {spelling : List Char}
    (h : 0 < spellingExtent spelling text) :
    Begins {spelling} text (spellingExtent spelling text) := by
  revert h
  unfold spellingExtent
  split
  · next hfront =>
    obtain ⟨rest, rfl⟩ := List.isPrefixOf_iff_prefix.1 hfront
    exact fun _ ↦ .singleton spelling rest
  · exact fun h ↦ absurd h (Nat.lt_irrefl 0)

/-- What a class measures at the front of a text is one of its lexemes. -/
theorem begins_extent (h : 0 < c.extent text) : Begins c.pattern text (c.extent text) := by
  cases c with
  | spelled kind =>
    rw [extent] at h ⊢
    rw [pattern]
    cases hkind : kind.spelling? with
    | some spelling =>
      rw [hkind] at h
      exact begins_spellingExtent h
    | none =>
      rw [hkind] at h
      cases h
  | endOfLine | boolean | loneQuote => exact begins_spellingExtent h
  | identifier =>
    cases text with
    | nil => cases h
    | cons x rest =>
      revert h
      simp only [extent]
      split
      · next hx => exact fun _ ↦ (Begins.one hx rest).mul (.run continuesName rest)
      · exact fun h ↦ absurd h (Nat.lt_irrefl 0)
  | decimal => exact .many h
  | hexadecimal | binary => exact .based h
  | float => exact .float h
  | closedString => exact .closedString h
  | openString => exact .openString h
  | character => exact .character h

end LexemeClass

end Offside
