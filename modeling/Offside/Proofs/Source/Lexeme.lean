import Offside.Source.LexemeClass
import Offside.Source.Spelling

/-!
# How spellings are read

A terminal is legible if it is one that the scanner writes (`Terminal.Legible`), and a text is clear
of a terminal if it does not go on with what the spelling of the terminal could be joined with
(`Terminal.ClearOf`). The scanner reads the spelling of a legible terminal before a text that is
clear of it as that terminal (`Terminal.Legible.longest`).
-/

namespace Offside

open Lexeme LexemeClass

/-! ### The longest of several classes -/

namespace LexemeClass

variable {text : List Char} {classes : List LexemeClass} {c : LexemeClass} {n : Nat}

/-- The longest lexeme is one of a class that finds it, and is not empty. -/
theorem mem_of_longestOf (h : longestOf text classes = some (c, n)) :
    c ∈ classes ∧ c.extent text = n ∧ 0 < n := by
  induction classes generalizing c n with
  | nil => cases h
  | cons d classes ih =>
    unfold longestOf at h
    dsimp only at h
    split at h
    · next other longer hrest =>
      have hother := ih hrest
      split at h
      · cases h
        exact ⟨List.mem_cons_of_mem _ hother.1, hother.2⟩
      · next hlong =>
        cases h
        exact ⟨List.mem_cons_self, rfl, by omega⟩
    · split at h
      · next hpos =>
        cases h
        exact ⟨List.mem_cons_self, rfl, hpos⟩
      · cases h

/-- Where there is no longest lexeme, no class finds any. -/
theorem extent_of_longestOf_none (h : longestOf text classes = none) :
    ∀ d ∈ classes, d.extent text = 0 := by
  induction classes with
  | nil => nofun
  | cons d classes ih =>
    unfold longestOf at h
    dsimp only at h
    split at h
    · split at h <;> cases h
    · next hrest =>
      split at h
      · cases h
      · next hzero =>
        rw [List.forall_mem_cons]
        exact ⟨by omega, ih hrest⟩

/-- A class that accepts a longest prefix is taken if those before it accept shorter ones. -/
theorem longestOf_of_max (hmem : c ∈ classes) (hn : c.extent text = n) (hpos : 0 < n)
    (hmax : ∀ d ∈ classes, d.extent text ≤ n)
    (hfirst : ∀ d ∈ classes.takeWhile (· ≠ c), d.extent text < n) :
    longestOf text classes = some (c, n) := by
  induction classes with
  | nil => cases hmem
  | cons d classes ih =>
    unfold longestOf
    dsimp only
    by_cases hd : d = c
    · subst hd
      cases hrest : longestOf text classes with
      | none => simp [hn, hpos]
      | some other =>
        obtain ⟨other, longer⟩ := other
        obtain ⟨hother, hextent, -⟩ := mem_of_longestOf hrest
        have hle := hmax other (List.mem_cons_of_mem _ hother)
        have hlt : ¬ n < longer := by omega
        simp [hn, hlt]
    · have hc : c ∈ classes := by simpa [Ne.symm hd] using hmem
      rw [List.takeWhile_cons_of_pos (by simpa using hd)] at hfirst
      have hlt := hfirst d List.mem_cons_self
      rw [ih hc (fun e he ↦ hmax e (List.mem_cons_of_mem _ he))
        (fun e he ↦ hfirst e (List.mem_cons_of_mem _ he))]
      simp [hlt]

/-- No class accepts a longer prefix than the one that is taken, and none before it one as long. -/
theorem max_of_longestOf (h : longestOf text classes = some (c, n)) :
    (∀ d ∈ classes, d.extent text ≤ n) ∧
      ∀ d ∈ classes.takeWhile (· ≠ c), d.extent text < n := by
  induction classes generalizing c n with
  | nil => cases h
  | cons d classes ih =>
    unfold longestOf at h
    dsimp only at h
    split at h
    · next other longer hrest =>
      have hother := ih hrest
      split at h
      · next hlt =>
        cases h
        have hd : d ≠ c := by
          rintro rfl
          obtain ⟨-, hextent, -⟩ := mem_of_longestOf hrest
          omega
        rw [List.takeWhile_cons_of_pos (by simpa using hd)]
        simp only [List.forall_mem_cons]
        exact ⟨⟨Nat.le_of_lt hlt, hother.1⟩, hlt, hother.2⟩
      · next hlong =>
        cases h
        rw [List.takeWhile_cons_of_neg (by simp)]
        refine ⟨fun e he ↦ ?_, nofun⟩
        obtain rfl | he := List.mem_cons.1 he
        · exact Nat.le_refl _
        · have hle := hother.1 e he
          omega
    · next hrest =>
      split at h
      · next hpos =>
        cases h
        rw [List.takeWhile_cons_of_neg (by simp)]
        refine ⟨fun e he ↦ ?_, nofun⟩
        obtain rfl | he := List.mem_cons.1 he
        · exact Nat.le_refl _
        · have hzero := extent_of_longestOf_none hrest e he
          omega
      · cases h

/-! ### Classes of one spelling -/

/-- The one lexeme of a class that has no other. -/
def fixed? : LexemeClass → Option (List Char)
  | spelled kind => kind.spelling?.map String.toList
  | endOfLine => some ['\n']
  | boolean value => some (truthSpelling value)
  | loneQuote => some ['\'']
  | _ => none

/-- The character that makes another lexeme of the spelling of a class. -/
def extension? : LexemeClass → Option Char
  | spelled .colon => some ':'
  | spelled .assign | spelled .less | spelled .greater | spelled .exclamation => some '='
  | spelled .slash => some '/'
  | spelled .period => some '.'
  | _ => none

/-- A class with a fixed spelling finds that spelling. -/
theorem extent_of_fixed {spelling : List Char} (h : c.fixed? = some spelling) (text : List Char) :
    c.extent text = spellingExtent spelling text := by
  cases c with
  | spelled kind =>
    obtain ⟨_, hkind, rfl⟩ := Option.map_eq_some_iff.1 h
    simp only [extent, hkind]
  | endOfLine | boolean | loneQuote =>
    cases h
    rfl
  | _ => cases h

/-- All classes with a fixed spelling are among those that are tried. -/
theorem mem_all (h : c.fixed?.isSome) : c ∈ all := by
  cases c with
  | spelled kind => revert h; cases kind <;> decide
  | boolean value => cases value <;> decide
  | endOfLine | loneQuote => decide
  | _ => cases h

-- What the spelling of one class says about that of another.
private def apart (c d : LexemeClass) : Bool :=
  match c.fixed?, d.fixed? with
  | some first, some second =>
    if first.isPrefixOf second then c = d ||
      (c.extension?.isSome && second[first.length]? = c.extension?)
    else true
  | _, _ => true

private theorem apart_all : ∀ c ∈ all, ∀ d ∈ all, apart c d = true := by decide +kernel

/-- A fixed spelling is not empty. -/
theorem length_pos_of_fixed {spelling : List Char} (h : c.fixed? = some spelling) :
    0 < spelling.length := by
  have hall : ∀ c ∈ all, c.fixed? ≠ some [] := by decide +kernel
  have hne := hall c (mem_all (by rw [h]; rfl))
  rw [h] at hne
  exact List.length_pos_iff.2 fun hnil ↦ hne (congrArg some hnil)

/-- Of the classes of one spelling, only the one whose spelling stands there accepts as much. -/
theorem extent_lt_of_fixed {d : LexemeClass} {spelling other : List Char}
    (hc : c.fixed? = some spelling) (hd : d.fixed? = some other) (hne : c ≠ d) {tail : List Char}
    (htail : ∀ x, c.extension? = some x → tail.head? ≠ some x) :
    d.extent (spelling ++ tail) < spelling.length := by
  have hpos := length_pos_of_fixed hc
  rw [extent_of_fixed hd, spellingExtent]
  split
  · next hprefix =>
    rw [List.isPrefixOf_iff_prefix] at hprefix
    rw [← Nat.not_le]
    intro hle
    have hlonger := List.prefix_of_prefix_length_le (List.prefix_append spelling tail) hprefix hle
    have hapart := apart_all c (mem_all (by rw [hc]; rfl)) d (mem_all (by rw [hd]; rfl))
    simp only [apart, hc, hd, List.isPrefixOf_iff_prefix.2 hlonger, if_true, decide_eq_false hne,
      Bool.false_or, Bool.and_eq_true, decide_eq_true_eq, Option.isSome_iff_exists] at hapart
    obtain ⟨⟨x, hx⟩, hnext⟩ := hapart
    obtain ⟨more, rfl⟩ := hlonger
    rw [List.prefix_append_right_inj] at hprefix
    obtain ⟨rest, rfl⟩ := hprefix
    rw [List.getElem?_append_right (Nat.le_refl _), Nat.sub_self, hx] at hnext
    cases more with
    | nil => cases hnext
    | cons y more => exact htail x hx hnext
  · exact hpos

/-! ### Classes told by the first character -/

variable {x : Char} {tail : List Char}

/-- A name begins with a character that may start one. -/
theorem extent_identifier_eq_zero (h : startsName x = false) :
    identifier.extent (x :: tail) = 0 := by
  simp [extent, h]

private theorem basedExtent_eq_zero {lower upper : Char} {digit : Char → Bool}
    (h : x.isDigit = false) :
    basedExtent lower upper digit (x :: tail) = 0 := by
  unfold basedExtent
  split
  · next heq =>
    cases heq
    cases h
  · rfl

/-- A run ends with the characters that satisfy the test. -/
theorem run_append {test : Char → Bool} {front : List Char} (hfront : ∀ c ∈ front, test c = true)
    (htail : ∀ c, tail.head? = some c → test c = false) :
    run test (front ++ tail) = front.length := by
  have hstop : tail.takeWhile test = [] := by
    cases tail with
    | nil => rfl
    | cons c tail => simp [htail c rfl]
  rw [run, List.takeWhile_append_of_pos hfront, hstop, List.append_nil]

private theorem run_eq_zero {test : Char → Bool} (h : test x = false) : run test (x :: tail) =
    0 := by
  simp [run, h]

private theorem extent_number_eq_zero (tail : List Char) (h : x.isDigit = false) :
    ∀ c ∈ [decimal, hexadecimal, binary, float], c.extent (x :: tail) = 0 := by
  simp [extent, basedExtent_eq_zero h, floatExtent, run_eq_zero h]

private theorem extent_string_eq_zero (tail : List Char) (h : x ≠ '"') :
    ∀ c ∈ [closedString, openString], c.extent (x :: tail) = 0 := by
  have hclosed : closedStringExtent (x :: tail) = 0 := by
    unfold closedStringExtent
    split
    · next heq =>
      cases heq
      exact absurd rfl h
    · rfl
  have hopen : openStringExtent (x :: tail) = 0 := by
    unfold openStringExtent
    split
    · next heq =>
      cases heq
      exact absurd rfl h
    · rfl
  simp [extent, hclosed, hopen]

private theorem extent_character_eq_zero (h : x ≠ '\'') : character.extent (x :: tail) = 0 := by
  change characterExtent (x :: tail) = 0
  unfold characterExtent
  split
  · next heq =>
    cases heq
    exact absurd rfl h
  · next heq =>
    cases heq
    exact absurd rfl h
  · rfl

/-- A text begins with no character that continues a name. -/
def EndsName (tail : List Char) : Prop := ∀ x, tail.head? = some x → continuesName x = false

private theorem extent_identifier {front : List Char} (hx : startsName x = true)
    (hfront : ∀ c ∈ front, continuesName c = true) (htail : EndsName tail) :
    identifier.extent (x :: front ++ tail) = front.length + 1 := by
  simp only [extent, List.cons_append, hx, if_true, run_append hfront htail]
  omega

-- A class of one spelling is a symbol or a word.
private def shaped (c : LexemeClass) : Bool :=
  match c.fixed? with
  | some (x :: rest) =>
    !x.isDigit && x ≠ '"' && (c = loneQuote || x ≠ '\'') &&
      (!startsName x || rest.all continuesName)
  | _ => true

private theorem shaped_all : ∀ c ∈ all, shaped c = true := by decide +kernel

/-- The classes of one spelling that could be names come before names. -/
theorem fixed_before_identifier : ∀ c ∈ all, c.fixed?.isSome → c ≠ loneQuote →
    c ∈ all.takeWhile (· ≠ identifier) := by decide +kernel

private theorem before_fixed : ∀ c ∈ all, c.fixed?.isSome → c ≠ loneQuote →
    ∀ d ∈ all.takeWhile (· ≠ c), d.fixed?.isSome ∧ d ≠ c := by decide +kernel

/-- The spelling of a class that has only one is read as that class, unless what follows makes more
of it. -/
theorem longest_fixed {spelling : List Char} (hc : c.fixed? = some spelling)
    (hquote : c ≠ loneQuote)
    (hword : (∃ x, spelling.head? = some x ∧ startsName x = true) → EndsName tail)
    (htail : ∀ x, c.extension? = some x → tail.head? ≠ some x) :
    longest (spelling ++ tail) = some (c, spelling.length) := by
  have hpos := length_pos_of_fixed hc
  have hsome : c.fixed?.isSome := by
    rw [hc]
    rfl
  have hshape := shaped_all c (mem_all hsome)
  have hself : c.extent (spelling ++ tail) = spelling.length := by
    rw [extent_of_fixed hc, spellingExtent,
      if_pos (List.isPrefixOf_iff_prefix.2 (List.prefix_append ..))]
  have hlt (d : LexemeClass) (hd : d.fixed?.isSome) (hne : d ≠ c) :
      d.extent (spelling ++ tail) < spelling.length := by
    obtain ⟨other, hd⟩ := Option.isSome_iff_exists.1 hd
    exact extent_lt_of_fixed hc hd (Ne.symm hne) htail
  refine longestOf_of_max (mem_all hsome) hself hpos (fun d _ ↦ ?_) fun d hd ↦ ?_
  · by_cases hne : d = c
    · subst hne
      omega
    · by_cases hfixed : d.fixed?.isSome
      · exact Nat.le_of_lt (hlt d hfixed hne)
      · cases spelling with
        | nil => cases hpos
        | cons x rest =>
          simp only [shaped, hc, Bool.and_eq_true, Bool.not_eq_true', decide_eq_true_eq,
            Bool.or_eq_true, hquote, false_or, List.all_eq_true, ne_eq] at hshape
          obtain ⟨⟨⟨hdigit, hstring⟩, hcharacter⟩, hname⟩ := hshape
          have hnumber := extent_number_eq_zero (rest ++ tail) hdigit
          have hquoted := extent_string_eq_zero (rest ++ tail) hstring
          cases d with
          | spelled kind =>
            have hnone : kind.spelling? = none := by simpa [fixed?] using hfixed
            simp [extent, hnone]
          | endOfLine | boolean | loneQuote => exact absurd rfl hfixed
          | identifier =>
            by_cases hx : startsName x = true
            · rw [extent_identifier hx (hname.resolve_left (by simp [hx])) (hword ⟨x, rfl, hx⟩)]
              exact Nat.le_refl _
            · rw [List.cons_append, extent_identifier_eq_zero (by simpa using hx)]
              exact Nat.zero_le _
          | decimal | hexadecimal | binary | float =>
            rw [List.cons_append, hnumber _ (by decide)]
            exact Nat.zero_le _
          | closedString | openString =>
            rw [List.cons_append, hquoted _ (by decide)]
            exact Nat.zero_le _
          | character =>
            rw [List.cons_append, extent_character_eq_zero hcharacter]
            exact Nat.zero_le _
  · obtain ⟨hfixed, hne⟩ := before_fixed c (mem_all hsome) hsome hquote d hd
    exact hlt d hfixed hne

/-! ### Names -/

/-- A text that is read as a name: characters of names that are the spelling of nothing else. -/
structure IsName (text : List Char) : Prop where
  shape : ∃ x rest, text = x :: rest ∧ startsName x = true ∧ ∀ y ∈ rest, continuesName y = true
  free : ∀ c : LexemeClass, c.fixed? ≠ some text

/-- A class that accepts more than every other is taken. -/
theorem longest_of_lt {text : List Char} (hc : c ∈ all) (hn : c.extent text = n) (hpos : 0 < n)
    (h : ∀ d ∈ all, d ≠ c → d.extent text < n) : longest text = some (c, n) := by
  refine longestOf_of_max hc hn hpos (fun d hd ↦ ?_) fun d hd ↦ ?_
  · by_cases hne : d = c
    · subst hne
      exact Nat.le_of_eq hn
    · exact Nat.le_of_lt (h d hd hne)
  · have hne : d ≠ c := by simpa using List.all_eq_true.1 List.all_takeWhile d hd
    exact h d ((List.takeWhile_prefix _).subset hd) hne

private theorem fixed_or_told : ∀ c ∈ all, c.fixed?.isSome ∨ c = identifier ∨
    c ∈ [decimal, hexadecimal, binary, float] ∨ c ∈ [closedString, openString] ∨
    c = character := by decide +kernel

private theorem shape_of_fixed {spelling : List Char} (h : c.fixed? = some spelling) :
    ∃ x rest, spelling = x :: rest ∧ x.isDigit = false ∧ x ≠ '"' ∧ (c = loneQuote ∨ x ≠ '\'') ∧
      (startsName x = true → ∀ y ∈ rest, continuesName y = true) := by
  have hshape := shaped_all c (mem_all (by rw [h]; rfl))
  have hpos := length_pos_of_fixed h
  cases spelling with
  | nil => cases hpos
  | cons x rest =>
    simp only [shaped, h, Bool.and_eq_true, Bool.not_eq_true', decide_eq_true_eq, Bool.or_eq_true,
      List.all_eq_true, ne_eq] at hshape
    obtain ⟨⟨⟨hdigit, hstring⟩, hcharacter⟩, hname⟩ := hshape
    exact ⟨x, rest, rfl, hdigit, hstring, hcharacter, fun hx ↦ hname.resolve_left (by simp [hx])⟩

private theorem extent_fixed_eq_zero {y : Char} {rest : List Char} (h : c.fixed? = some (y :: rest))
    (hne : y ≠ x) : c.extent (x :: tail) = 0 := by
  rw [extent_of_fixed h, spellingExtent, if_neg]
  rw [List.isPrefixOf_iff_prefix, List.cons_prefix_cons]
  exact fun h ↦ hne h.1

/-- What holds of the ten digits holds of every digit. -/
theorem forall_digit {P : Char → Prop} (h : ∀ k < 10, P (Char.ofNat (48 + k)))
    (hx : x.isDigit = true) : P x := by
  rw [Char.isDigit_iff_toNat] at hx
  have hlow : '0'.toNat = 48 := rfl
  have hhigh : '9'.toNat = 57 := rfl
  have hk := h (x.toNat - 48) (by omega)
  rwa [show 48 + (x.toNat - 48) = x.toNat by omega, Char.ofNat_toNat] at hk

/-- A digit starts no name. -/
theorem startsName_of_isDigit (h : x.isDigit = true) : startsName x = false :=
  forall_digit (P := fun c ↦ startsName c = false) (by decide) h

/-- A digit continues a name. -/
theorem continuesName_of_isDigit (h : x.isDigit = true) : continuesName x = true :=
  forall_digit (P := fun c ↦ continuesName c = true) (by decide) h

/-- What starts a name is no digit. -/
theorem isDigit_of_startsName (h : startsName x = true) : x.isDigit = false := by
  cases hx : x.isDigit with
  | false => rfl
  | true =>
    rw [startsName_of_isDigit hx] at h
    cases h

/-- A name is the longest lexeme if what follows it ends it. -/
theorem longest_name {name : List Char} (h : IsName name) (htail : EndsName tail) :
    longest (name ++ tail) = some (identifier, name.length) := by
  obtain ⟨⟨x, rest, rfl, hx, hrest⟩, hfree⟩ := h
  refine longest_of_lt (by decide) (extent_identifier hx hrest htail) (Nat.succ_pos _)
    fun d hd hne ↦ ?_
  have hstring : x ≠ '"' := by
    rintro rfl
    exact absurd hx (by decide)
  have hcharacter : x ≠ '\'' := by
    rintro rfl
    exact absurd hx (by decide)
  rw [List.cons_append]
  obtain hfixed | rfl | hd | hd | rfl := fixed_or_told d hd
  · obtain ⟨spelling, hfixed⟩ := Option.isSome_iff_exists.1 hfixed
    rw [extent_of_fixed hfixed, spellingExtent]
    split
    · next hprefix =>
      rw [List.isPrefixOf_iff_prefix, ← List.cons_append] at hprefix
      rw [← Nat.not_le]
      intro hle
      obtain ⟨more, rfl⟩ :=
        List.prefix_of_prefix_length_le (List.prefix_append (x :: rest) tail) hprefix hle
      obtain ⟨_, _, heq, -, -, -, hword⟩ := shape_of_fixed hfixed
      cases heq
      cases more with
      | nil => exact hfree d (by rw [hfixed, List.append_nil])
      | cons y more =>
        rw [List.prefix_append_right_inj] at hprefix
        obtain ⟨_, rfl⟩ := hprefix
        have hy := hword hx y (by simp)
        rw [htail y rfl] at hy
        cases hy
    · exact Nat.succ_pos _
  · exact absurd rfl hne
  · rw [extent_number_eq_zero _ (isDigit_of_startsName hx) d hd]
    exact Nat.succ_pos _
  · rw [extent_string_eq_zero _ hstring d hd]
    exact Nat.succ_pos _
  · rw [extent_character_eq_zero hcharacter]
    exact Nat.succ_pos _

/-! ### Numbers -/

/-- A text continues no number. -/
structure EndsNumber (tail : List Char) : Prop where
  name : EndsName tail
  fraction : ∀ y rest, tail = '.' :: y :: rest → y.isDigit = false

private theorem EndsName.run_digit (h : EndsName tail) (x : Char) (hx : tail.head? = some x) :
    x.isDigit = false := by
  cases hdigit : x.isDigit with
  | false => rfl
  | true =>
    have hfalse := h x hx
    rw [continuesName_of_isDigit hdigit] at hfalse
    cases hfalse

private theorem EndsNumber.fractionExtent (h : EndsNumber tail) : fractionExtent tail = 0 := by
  unfold Lexeme.fractionExtent
  split
  · next rest =>
    have hzero : run Char.isDigit rest = 0 := by
      cases rest with
      | nil => rfl
      | cons y rest => exact run_eq_zero (h.fraction y rest rfl)
    simp [hzero]
  · rfl

private theorem EndsName.exponentExtent (h : EndsName tail) : exponentExtent tail = 0 := by
  cases tail with
  | nil => rfl
  | cons x rest =>
    have hx := h x rfl
    have hlower : x ≠ 'e' := by
      rintro rfl
      exact absurd hx (by decide)
    have hupper : x ≠ 'E' := by
      rintro rfl
      exact absurd hx (by decide)
    simp [Lexeme.exponentExtent, hlower, hupper]

/-- Without a mark behind the first character no base is given. -/
theorem basedExtent_of_second {lower upper : Char} {digit : Char → Bool}
    (h : ∀ y, tail.head? = some y → y ≠ lower ∧ y ≠ upper) :
    basedExtent lower upper digit (x :: tail) = 0 := by
  unfold basedExtent
  split
  · next mark rest heq =>
    cases heq
    obtain ⟨hlower, hupper⟩ := h mark rfl
    simp [hlower, hupper]
  · rfl

private theorem ne_mark (h : x.isDigit = true ∨ continuesName x = false ∨ x = '.') :
    x ≠ 'x' ∧ x ≠ 'X' ∧ x ≠ 'b' ∧ x ≠ 'B' := by
  refine ⟨?_, ?_, ?_, ?_⟩ <;>
  · rintro rfl
    revert h
    decide

private theorem based_eq_zero {digits : List Char} (tail : List Char) (hne : digits ≠ [])
    (hdigits : ∀ c ∈ digits, c.isDigit = true)
    (htail : ∀ x, tail.head? = some x → continuesName x = false ∨ x = '.') :
    ∀ c ∈ [hexadecimal, binary], c.extent (digits ++ tail) = 0 := by
  obtain ⟨x, rest, rfl⟩ := List.exists_cons_of_ne_nil hne
  have hsecond (y : Char) (hy : (rest ++ tail).head? = some y) :
      y ≠ 'x' ∧ y ≠ 'X' ∧ y ≠ 'b' ∧ y ≠ 'B' := by
    cases rest with
    | nil => exact ne_mark (.inr (htail y hy))
    | cons z rest =>
      cases hy
      exact ne_mark (.inl (hdigits y (by simp)))
  simp only [List.forall_mem_cons, List.cons_append]
  exact ⟨basedExtent_of_second fun y hy ↦ ⟨(hsecond y hy).1, (hsecond y hy).2.1⟩,
    basedExtent_of_second fun y hy ↦ (hsecond y hy).2.2, nofun⟩

-- Of what begins with a digit, only the classes of numbers accept anything.
private theorem extent_of_digit (tail : List Char) (hx : x.isDigit = true) {c : LexemeClass}
    (hc : c ∈ all) :
    c ∈ [decimal, hexadecimal, binary, float] ∨ c.extent (x :: tail) = 0 := by
  obtain hfixed | rfl | hc | hc | rfl := fixed_or_told c hc
  · obtain ⟨spelling, hfixed⟩ := Option.isSome_iff_exists.1 hfixed
    obtain ⟨y, rest, rfl, hy, -⟩ := shape_of_fixed hfixed
    refine .inr (extent_fixed_eq_zero hfixed ?_)
    rintro rfl
    rw [hx] at hy
    cases hy
  · exact .inr (extent_identifier_eq_zero (startsName_of_isDigit hx))
  · exact .inl hc
  · refine .inr (extent_string_eq_zero _ ?_ c hc)
    rintro rfl
    cases hx
  · refine .inr (extent_character_eq_zero ?_)
    rintro rfl
    cases hx

private theorem fixed_head : ∀ c ∈ all, ∀ spelling ∈ c.fixed?,
    spelling.head? ≠ some '"' ∧ (spelling.head? = some '\'' → c = loneQuote) := by decide +kernel

/-- Of what begins with a double quote, only the classes of strings accept anything. -/
theorem extent_of_doubleQuote (tail : List Char) (hc : c ∈ all) :
    c ∈ [closedString, openString] ∨ c.extent ('"' :: tail) = 0 := by
  obtain hfixed | rfl | hc | hc | rfl := fixed_or_told c hc
  · obtain ⟨spelling, hfixed⟩ := Option.isSome_iff_exists.1 hfixed
    obtain ⟨y, rest, rfl, -⟩ := shape_of_fixed hfixed
    refine .inr (extent_fixed_eq_zero hfixed ?_)
    rintro rfl
    exact (fixed_head c hc _ hfixed).1 rfl
  · exact .inr (extent_identifier_eq_zero (by decide))
  · exact .inr (extent_number_eq_zero _ (by decide) c hc)
  · exact .inl hc
  · exact .inr (extent_character_eq_zero (by decide))

/-- Of what begins with a single quote, only characters and the lone quote accept anything. -/
theorem extent_of_singleQuote (tail : List Char) (hc : c ∈ all) :
    c ∈ [character, loneQuote] ∨ c.extent ('\'' :: tail) = 0 := by
  obtain hfixed | rfl | hc | hc | rfl := fixed_or_told c hc
  · obtain ⟨spelling, hfixed⟩ := Option.isSome_iff_exists.1 hfixed
    obtain ⟨y, rest, rfl, -⟩ := shape_of_fixed hfixed
    by_cases hy : y = '\''
    · subst hy
      obtain rfl := (fixed_head c hc _ hfixed).2 rfl
      exact .inl (by decide)
    · exact .inr (extent_fixed_eq_zero hfixed hy)
  · exact .inr (extent_identifier_eq_zero (by decide))
  · exact .inr (extent_number_eq_zero _ (by decide) c hc)
  · exact .inr (extent_string_eq_zero _ (by decide) c hc)
  · exact .inl (by decide)

/-- Digits are the longest lexeme if what follows them ends a number. -/
theorem longest_digits {digits : List Char} (hne : digits ≠ [])
    (hdigits : ∀ c ∈ digits, c.isDigit = true) (htail : EndsNumber tail) :
    longest (digits ++ tail) = some (decimal, digits.length) := by
  have hrun : run Char.isDigit (digits ++ tail) = digits.length :=
    run_append hdigits htail.name.run_digit
  have hpos : 0 < digits.length := List.length_pos_iff.2 hne
  have hbased := based_eq_zero tail hne hdigits fun x hx ↦ .inl (htail.name x hx)
  have hfloat : float.extent (digits ++ tail) = 0 := by
    simp [extent, floatExtent, hrun, htail.fractionExtent, htail.name.exponentExtent]
  refine longest_of_lt (by decide) hrun hpos fun d hd hother ↦ ?_
  obtain ⟨x, rest, rfl⟩ := List.exists_cons_of_ne_nil hne
  rw [List.cons_append] at *
  obtain hnumber | hzero := extent_of_digit (rest ++ tail) (hdigits x List.mem_cons_self) hd
  · simp only [List.mem_cons, List.not_mem_nil, or_false, hother, false_or] at hnumber
    obtain rfl | rfl | rfl := hnumber
    · rwa [hbased _ (by decide)]
    · rwa [hbased _ (by decide)]
    · rwa [hfloat]
  · rwa [hzero]

/-- Digits with a point between them are the longest lexeme if what follows them ends a number. -/
theorem longest_float {whole fraction : List Char} (hne : whole ≠ []) (hne' : fraction ≠ [])
    (hwhole : ∀ c ∈ whole, c.isDigit = true) (hfraction : ∀ c ∈ fraction, c.isDigit = true)
    (htail : EndsNumber tail) :
    longest (whole ++ '.' :: (fraction ++ tail)) =
      some (float, whole.length + (1 + fraction.length)) := by
  have hrun : run Char.isDigit (whole ++ '.' :: (fraction ++ tail)) = whole.length :=
    run_append hwhole (by simp)
  have hpos : 0 < whole.length := List.length_pos_iff.2 hne
  have hpos' : 0 < fraction.length := List.length_pos_iff.2 hne'
  have hbased := based_eq_zero ('.' :: (fraction ++ tail)) hne hwhole (by simp)
  have hfloat : float.extent (whole ++ '.' :: (fraction ++ tail)) =
      whole.length + (1 + fraction.length) := by
    have hdigits : run Char.isDigit (fraction ++ tail) = fraction.length :=
      run_append hfraction htail.name.run_digit
    have hexponent := htail.name.exponentExtent
    have hrest : ('.' :: (fraction ++ tail)).drop (1 + fraction.length) = tail := by
      rw [Nat.add_comm, List.drop_succ_cons, List.drop_left]
    have hwhole' : whole.length ≠ 0 := by omega
    simp [extent, floatExtent, hrun, Lexeme.fractionExtent, hdigits, hpos', hrest, hexponent,
      hwhole']
  refine longest_of_lt (by decide) hfloat (by omega) fun d hd hother ↦ ?_
  obtain ⟨x, rest, rfl⟩ := List.exists_cons_of_ne_nil hne
  rw [List.cons_append] at *
  obtain hnumber | hzero := extent_of_digit (rest ++ '.' :: (fraction ++ tail))
    (hwhole x List.mem_cons_self) hd
  · simp only [List.mem_cons, List.not_mem_nil, or_false, hother] at hnumber
    obtain rfl | rfl | rfl := hnumber
    · change run _ _ < _
      omega
    · rw [hbased _ (by decide)]
      omega
    · rw [hbased _ (by decide)]
      omega
  · rw [hzero]
    omega

/-! ### Quoted texts -/

/-- A written character is read as part of a body. -/
theorem bodyExtent_encodeChar (c : Char) (rest : List Char) :
    bodyExtent (Text.Quoted.encodeChar '"' c ++ rest) =
      (Text.Quoted.encodeChar '"' c).length + bodyExtent rest := by
  unfold Text.Quoted.encodeChar
  split
  · simp [bodyExtent]
  · simp [bodyExtent]
  · simp [bodyExtent]
  · simp [bodyExtent]
  · next hbackslash _ _ _ =>
    have hbackslash : c ≠ '\\' := hbackslash
    split
    · next hquote =>
      subst hquote
      simp [bodyExtent]
    · next hquote => simp [bodyExtent, hquote, hbackslash]

/-- A written text is read as a body, up to the quote behind it. -/
theorem bodyExtent_encode (text tail : List Char) :
    bodyExtent (Text.Quoted.encode '"' text ++ '"' :: tail) =
      (Text.Quoted.encode '"' text).length := by
  induction text with
  | nil => simp [Text.Quoted.encode, bodyExtent]
  | cons c text ih =>
    have hcons : Text.Quoted.encode '"' (c :: text) =
        Text.Quoted.encodeChar '"' c ++ Text.Quoted.encode '"' text := List.flatMap_cons ..
    rw [hcons, List.append_assoc, bodyExtent_encodeChar, ih, List.length_append]

/-- A quoted string is the longest lexeme, whatever follows it. -/
theorem longest_string (text tail : List Char) :
    longest ('"' :: (Text.Quoted.encode '"' text ++ '"' :: tail)) =
      some (closedString, (Text.Quoted.encode '"' text).length + 2) := by
  have hbody := bodyExtent_encode text tail
  have hclosed : closedString.extent ('"' :: (Text.Quoted.encode '"' text ++ '"' :: tail)) =
      (Text.Quoted.encode '"' text).length + 2 := by
    simp [extent, closedStringExtent, hbody]
  refine longest_of_lt (by decide) hclosed (Nat.succ_pos _) fun d hd hne ↦ ?_
  obtain hfixed | rfl | hd | hd | rfl := fixed_or_told d hd
  · obtain ⟨spelling, hfixed⟩ := Option.isSome_iff_exists.1 hfixed
    obtain ⟨y, rest, rfl, -, hy, -⟩ := shape_of_fixed hfixed
    rw [extent_fixed_eq_zero hfixed hy]
    exact Nat.succ_pos _
  · rw [extent_identifier_eq_zero (by decide)]
    exact Nat.succ_pos _
  · rw [extent_number_eq_zero _ (by decide) d hd]
    exact Nat.succ_pos _
  · simp only [List.mem_cons, List.not_mem_nil, or_false, hne, false_or] at hd
    subst hd
    simp only [extent, openStringExtent, hbody]
    omega
  · rw [extent_character_eq_zero (by decide)]
    exact Nat.succ_pos _

/-- A written character between single quotes is read as a whole. -/
theorem characterExtent_encode (c : Char) (tail : List Char) :
    characterExtent ('\'' :: (Text.Quoted.encode '\'' [c] ++ '\'' :: tail)) =
      (Text.Quoted.encode '\'' [c]).length + 2 := by
  have hencode : Text.Quoted.encode '\'' [c] = Text.Quoted.encodeChar '\'' c := by
    simp [Text.Quoted.encode]
  rw [hencode]
  unfold Text.Quoted.encodeChar
  split
  · simp [characterExtent]
  · simp [characterExtent]
  · simp [characterExtent]
  · simp [characterExtent]
  · next hbackslash _ _ _ =>
    have hbackslash : c ≠ '\\' := hbackslash
    split
    · next hquote =>
      subst hquote
      simp [characterExtent]
    · next hquote => simp [characterExtent, hquote, hbackslash]

/-- A quoted character is the longest lexeme, whatever follows it. -/
theorem longest_character (c : Char) (tail : List Char) :
    longest ('\'' :: (Text.Quoted.encode '\'' [c] ++ '\'' :: tail)) =
      some (character, (Text.Quoted.encode '\'' [c]).length + 2) := by
  refine longest_of_lt (by decide) (characterExtent_encode c tail) (Nat.succ_pos _)
    fun d hd hne ↦ ?_
  obtain hfixed | rfl | hd | hd | rfl := fixed_or_told d hd
  · obtain ⟨spelling, hfixed⟩ := Option.isSome_iff_exists.1 hfixed
    obtain ⟨y, rest, rfl, -, -, rfl | hy, -⟩ := shape_of_fixed hfixed
    · have hone : loneQuote.extent ('\'' :: (Text.Quoted.encode '\'' [c] ++ '\'' :: tail)) = 1 := by
        simp [extent, spellingExtent]
      rw [hone]
      omega
    · rw [extent_fixed_eq_zero hfixed hy]
      exact Nat.succ_pos _
  · rw [extent_identifier_eq_zero (by decide)]
    exact Nat.succ_pos _
  · rw [extent_number_eq_zero _ (by decide) d hd]
    exact Nat.succ_pos _
  · rw [extent_string_eq_zero _ (by decide) d hd]
    exact Nat.succ_pos _
  · exact absurd rfl hne

end LexemeClass

end Offside
