import Mathlib.Data.Nat.Digits.Defs
import Offside.Proofs.Source.Front

/-!
# The longest lexeme is taken

What stands at the front of a text is told by the patterns of lexemes alone (`Token.Munches`): which
of them matches longest, and what that lexeme is worth. This holds wherever the scanner has passed
the blanks (`Token.munches_of_scan`).
-/

namespace Offside

open Lexeme LexemeClass
open scoped Computability

/-! ### Positional values and escapes -/

namespace Lexeme

variable {word body : List Char} {x : Char}

/-- The value of a digit: its place among the digits, in either case. -/
def digitIndex (c : Char) : Nat :=
  ['0', '1', '2', '3', '4', '5', '6', '7', '8', '9', 'a', 'b', 'c', 'd', 'e', 'f'].idxOf c.toLower

/-- The number that digits write in a base: each counts as often as its position says. -/
def positional (base : Nat) (digits : List Char) : Nat :=
  Nat.ofDigits base (digits.reverse.map digitIndex)

private theorem digitIndex_eq_of_lt : ∀ k < 128, isHexDigit (Char.ofNat k) = true →
    digitIndex (Char.ofNat k) = digitValue (Char.ofNat k) := by decide +kernel

private theorem digitIndex_eq (h : isHexDigit x = true) : digitIndex x = digitValue x := by
  have hlt : x.toNat < 128 := by
    have hdigit : '9'.toNat = 57 := rfl
    have hlower : 'f'.val.toNat = 102 := rfl
    have hupper : 'F'.val.toNat = 70 := rfl
    simp only [isHexDigit, Bool.or_eq_true, Bool.and_eq_true, decide_eq_true_eq,
      Char.isDigit_iff_toNat, Char.le_def, UInt32.le_iff_toNat_le] at h
    change (('0'.toNat ≤ x.val.toNat ∧ x.val.toNat ≤ '9'.toNat) ∨ _) ∨ _ at h
    change x.val.toNat < 128
    omega
  have heq := digitIndex_eq_of_lt x.toNat hlt
  rw [Char.ofNat_toNat] at heq
  exact heq h

private theorem isHexDigit_of_isDigit (h : x.isDigit = true) : isHexDigit x = true := by
  simp [isHexDigit, h]

private theorem isHexDigit_of_isBinaryDigit (h : isBinaryDigit x = true) : isHexDigit x = true := by
  simp only [isBinaryDigit, Bool.or_eq_true, beq_iff_eq] at h
  obtain rfl | rfl := h <;> rfl

/-- Reading digits from the left gives their positional value. -/
theorem numeral_eq_positional (base : Nat) (h : ∀ c ∈ word, isHexDigit c = true) :
    numeral base word = positional base word := by
  unfold numeral positional
  rw [Nat.ofDigits_eq_foldr, List.foldr_map, List.foldr_reverse]
  refine List.foldl_ext _ _ _ fun value digit hdigit ↦ ?_
  rw [digitIndex_eq (h digit hdigit), Nat.cast_id, Nat.add_comm, Nat.mul_comm]

/-- The character makes an escape with the backslash before it. -/
def isEscape (c : Char) : Bool := ['\\', '\'', '"', 'n', 't', 'r'].contains c

private theorem isSome_escaped (c : Char) : (Text.Quoted.escaped? c).isSome = isEscape c := by
  unfold Text.Quoted.escaped? isEscape
  split
  case h_7 => simp_all
  all_goals rfl

private theorem staysInLine_of_isEscape (h : isEscape x = true) : staysInLine x = true := by
  rw [staysInLine, bne_iff_ne]
  rintro rfl
  cases h

private theorem decode_plain (h : x ≠ '\\') (rest : List Char) :
    Text.Quoted.decode (x :: rest) = (Text.Quoted.decode rest).map (x :: ·) := by
  simp [Text.Quoted.decode, h]

private theorem isSome_decode_escape (c : Char) (rest : List Char) :
    (Text.Quoted.decode ('\\' :: c :: rest)).isSome =
      (isEscape c && (Text.Quoted.decode rest).isSome) := by
  rw [← isSome_escaped]
  simp only [Text.Quoted.decode]
  cases Text.Quoted.escaped? c with
  | none => rfl
  | some meant =>
    cases Text.Quoted.decode rest with
    | none => rfl
    | some text => rfl

/-- A body of characters and escapes is one of characters and of whatever may follow a backslash. -/
theorem mem_body_of_escapes (h : body ∈ (quotable '"' isEscape)∗) :
    body ∈ (quotable '"' staysInLine)∗ := by
  refine body_induction h ?nil ?plain ?escape
  case nil => exact Language.nil_mem_kstar _
  case plain =>
    exact fun c rest hquote hbackslash ih ↦
      append_mem_kstar (mem_quotable.2 (.inl ⟨c, hquote, hbackslash, rfl⟩)) ih
  case escape =>
    exact fun c rest hc ih ↦
      append_mem_kstar (mem_quotable.2 (.inr ⟨c, staysInLine_of_isEscape hc, rfl⟩)) ih

/-- A body stands for a text if and only if all its escapes are known. -/
theorem isSome_decode (h : body ∈ (quotable '"' staysInLine)∗) :
    (Text.Quoted.decode body).isSome = true ↔ body ∈ (quotable '"' isEscape)∗ := by
  constructor
  · refine body_induction h ?nil ?plain ?escape
    case nil => exact fun _ ↦ Language.nil_mem_kstar _
    case plain =>
      intro c rest hquote hbackslash ih hsome
      rw [decode_plain hbackslash, Option.isSome_map] at hsome
      exact append_mem_kstar (mem_quotable.2 (.inl ⟨c, hquote, hbackslash, rfl⟩)) (ih hsome)
    case escape =>
      intro c rest _ ih hsome
      rw [isSome_decode_escape, Bool.and_eq_true] at hsome
      exact append_mem_kstar (mem_quotable.2 (.inr ⟨c, hsome.1, rfl⟩)) (ih hsome.2)
  · intro hescapes
    refine body_induction hescapes ?nil ?plain ?escape
    case nil => rfl
    case plain =>
      intro c rest _ hbackslash ih
      rwa [decode_plain hbackslash, Option.isSome_map]
    case escape =>
      intro c rest hc ih
      rw [isSome_decode_escape, hc, ih, Bool.and_self]

end Lexeme

namespace Token

variable {text lexeme body : List Char} {c : LexemeClass} {x : Char}

/-! ### Quoted lexemes -/

private theorem length_le_of_prefix {word : List Char} (hword : word <+: text)
    (h : word ∈ c.pattern) : c ∈ all ∧ word.length ≤ c.extent text := by
  obtain ⟨rest, rfl⟩ := hword
  exact ⟨mem_all_of_mem_pattern h, length_le_extent h rest⟩

private theorem not_length_le_zero {word : List Char} (h : word ∈ c.pattern)
    (hle : word.length ≤ 0) : False :=
  ne_nil_of_mem_pattern h (List.length_eq_zero_iff.1 (Nat.le_zero.1 hle))

/-- A string that closes is the longest lexeme. -/
theorem isLongest_closedString (hbody : body ∈ (quotable '"' staysInLine)∗)
    (h : '"' :: body ++ ['"'] <+: text) : IsLongest text ('"' :: body ++ ['"']) closedString := by
  refine ⟨h, mem_mul_singleton.2 ⟨_, mem_singleton_mul.2 ⟨body, hbody, rfl⟩, rfl⟩,
    fun other word hword hother ↦ ?_⟩
  obtain ⟨rest, rfl⟩ := h
  obtain ⟨hmem, hle⟩ := length_le_of_prefix hword hother
  have hextent := bodyExtent_append hbody ('"' :: rest)
  have hquote : bodyExtent ('"' :: rest) = 0 := by simp [bodyExtent]
  have heq : '"' :: body ++ ['"'] ++ rest = '"' :: (body ++ '"' :: rest) := by simp
  rw [heq] at hle
  simp only [List.cons_append, List.length_cons, List.length_append, List.length_nil]
  obtain hstring | hzero := extent_of_doubleQuote (body ++ '"' :: rest) hmem
  · simp only [List.mem_cons, List.not_mem_nil, or_false] at hstring
    obtain rfl | rfl := hstring
    · simp [extent, closedStringExtent, hextent, hquote] at hle
      omega
    · simp only [extent, openStringExtent, hextent, hquote] at hle
      omega
  · rw [hzero] at hle
    exact (not_length_le_zero hother hle).elim

/-- A string that does not close is the longest lexeme as far as its body can be read. -/
theorem isLongest_openString {rest : List Char}
    (h : ∀ body ∈ (quotable '"' staysInLine)∗, ¬ '"' :: body ++ ['"'] <+: '"' :: rest) :
    IsLongest ('"' :: rest) ('"' :: rest.take (bodyExtent rest)) openString := by
  obtain ⟨hlength, hbody⟩ := Begins.body rest
  refine ⟨List.cons_prefix_cons.2 ⟨rfl, List.take_prefix ..⟩,
    mem_singleton_mul.2 ⟨_, hbody, rfl⟩, fun other word hword hother ↦ ?_⟩
  obtain ⟨hmem, hle⟩ := length_le_of_prefix hword hother
  rw [List.length_cons, List.length_take, Nat.min_eq_left hlength]
  obtain hstring | hzero := extent_of_doubleQuote rest hmem
  · simp only [List.mem_cons, List.not_mem_nil, or_false] at hstring
    obtain rfl | rfl := hstring
    · obtain ⟨_, hfront, rfl⟩ := mem_mul_singleton.1 hother
      obtain ⟨body, hbody, rfl⟩ := mem_singleton_mul.1 hfront
      exact absurd hword (h body hbody)
    · simp only [extent, openStringExtent] at hle
      omega
  · rw [hzero] at hle
    exact (not_length_le_zero hother hle).elim

private theorem characterExtent_append (h : lexeme ∈ character.pattern) (rest : List Char) :
    characterExtent (lexeme ++ rest) = lexeme.length ∧
      ∃ tail, lexeme ++ rest = '\'' :: tail := by
  obtain ⟨x, hquote, hbackslash, rfl⟩ | ⟨x, hx, rfl⟩ := mem_character.1 h
  · exact ⟨by simp [characterExtent, hquote, hbackslash], _, rfl⟩
  · exact ⟨by simp [characterExtent, hx], _, rfl⟩

/-- A character between single quotes is the longest lexeme. -/
theorem isLongest_character (hlexeme : lexeme ∈ character.pattern) (h : lexeme <+: text) :
    IsLongest text lexeme character := by
  refine ⟨h, hlexeme, fun other word hword hother ↦ ?_⟩
  obtain ⟨rest, rfl⟩ := h
  obtain ⟨hmem, hle⟩ := length_le_of_prefix hword hother
  obtain ⟨hextent, tail, htail⟩ := characterExtent_append hlexeme rest
  rw [htail] at hle hextent
  obtain hquoted | hzero := extent_of_singleQuote tail hmem
  · simp only [List.mem_cons, List.not_mem_nil, or_false] at hquoted
    obtain rfl | rfl := hquoted
    · exact Nat.le_trans hle (Nat.le_of_eq hextent)
    · cases hother
      exact List.length_pos_iff.2 (ne_nil_of_mem_pattern hlexeme)
  · rw [hzero] at hle
    exact (not_length_le_zero hother hle).elim

/-- A single quote that begins no character is the longest lexeme. -/
theorem isLongest_loneQuote {rest : List Char}
    (h : ∀ lexeme ∈ character.pattern, ¬ lexeme <+: '\'' :: rest) :
    IsLongest ('\'' :: rest) ['\''] loneQuote := by
  refine ⟨⟨rest, rfl⟩, rfl, fun other word hword hother ↦ ?_⟩
  obtain ⟨hmem, hle⟩ := length_le_of_prefix hword hother
  obtain hquoted | hzero := extent_of_singleQuote rest hmem
  · simp only [List.mem_cons, List.not_mem_nil, or_false] at hquoted
    obtain rfl | rfl := hquoted
    · exact absurd hword (h word hother)
    · cases hother
      exact Nat.le_refl _
  · rw [hzero] at hle
    exact (not_length_le_zero hother hle).elim

/-! ### What stands at the front -/

/-- What is read at the front of a text is what the patterns of lexemes say. -/
structure Munches (text : List Char)
    (found : Except (LexicalFault × List Char) (Terminal × List Char)) : Prop where
  /-- What is read is the longest lexeme of any class. -/
  taken : ∀ terminal lexeme, found = .ok (terminal, lexeme) →
    ∃ c : LexemeClass, IsLongest text lexeme c ∧ c.read lexeme = .ok terminal
  /-- What is refused is the longest lexeme of any class, or no class has any. -/
  refused : ∀ fault snippet, found = .error (fault, snippet) →
    (∃ c : LexemeClass, IsLongest text snippet c ∧ c.read snippet = .error fault) ∨
      (∀ (c : LexemeClass) (word : List Char), word <+: text → word ∉ c.pattern) ∧
        fault = .unexpectedCharacter
  /-- Symbols, keywords, truth values, line ends and lone quotes are read as such, also those that
  are spelled as names. -/
  literal : ∀ (c : LexemeClass) (lexeme : List Char), c.fixed? = some lexeme →
    IsLongest text lexeme c → found = c.tell lexeme
  name : ∀ name, IsLongest text name identifier → (∀ c : LexemeClass, c.fixed? ≠ some name) →
    found = .ok (⟨.identifier, .text (String.ofList name)⟩, name)
  /-- An integer is worth what its digits are worth in their positions. -/
  integer : ∀ terminal lexeme, found = .ok (terminal, lexeme) ∧ terminal.kind = .integer ↔
    ∃ base digits, terminal = ⟨.integer, .integer (positional base digits)⟩ ∧
      (base = 10 ∧ lexeme = digits ∧ IsLongest text lexeme decimal ∨
        base = 16 ∧ (∃ mark, lexeme = '0' :: mark :: digits) ∧ IsLongest text lexeme hexadecimal ∨
        base = 2 ∧ (∃ mark, lexeme = '0' :: mark :: digits) ∧ IsLongest text lexeme binary)
  float : ∀ lexeme, IsLongest text lexeme float → found =
    if (decimalOf lexeme).nearest.isFinite then
      .ok (⟨.float, .float (decimalOf lexeme).nearest⟩, lexeme)
    else .error (.invalidNumber, lexeme)
  /-- A string is read if and only if it closes and all its escapes are known. -/
  string : ∀ terminal lexeme, found = .ok (terminal, lexeme) ∧ terminal.kind = .string ↔
    ∃ body ∈ (quotable '"' isEscape)∗, ∃ value, Text.Quoted.decode body = some value ∧
      lexeme = '"' :: body ++ ['"'] ∧ lexeme <+: text ∧
      terminal = ⟨.string, .text (String.ofList value)⟩
  unknownEscape : ∀ body ∈ (quotable '"' staysInLine)∗, '"' :: body ++ ['"'] <+: text →
    body ∉ (quotable '"' isEscape)∗ → found = .error (.unknownEscape, '"' :: body ++ ['"'])
  /-- A string that does not close is shown as far as its body can be read. -/
  unterminated : text.head? = some '"' →
    (∀ body ∈ (quotable '"' staysInLine)∗, ¬ '"' :: body ++ ['"'] <+: text) →
    ∃ body ∈ (quotable '"' staysInLine)∗, '"' :: body <+: text ∧
      (∀ other ∈ (quotable '"' staysInLine)∗, '"' :: other <+: text →
        other.length ≤ body.length) ∧
      found = .error (.unterminatedString, '"' :: body)
  plain : ∀ x, x ≠ '\'' → x ≠ '\\' → ['\'', x, '\''] <+: text →
    found = .ok (⟨.character, .character x⟩, ['\'', x, '\''])
  escape : ∀ x, isEscape x = true → ['\'', '\\', x, '\''] <+: text → ∃ meant,
    Text.Quoted.escaped? x = some meant ∧
      found = .ok (⟨.character, .character meant⟩, ['\'', '\\', x, '\''])
  noEscape : ∀ x, isEscape x = false → x ≠ '\n' → ['\'', '\\', x, '\''] <+: text →
    found = .error (.unknownEscape, ['\'', '\\', x, '\''])
  /-- A single quote that begins no character stands alone. -/
  malformed : text.head? = some '\'' → (∀ lexeme ∈ character.pattern, ¬ lexeme <+: text) →
    found = .error (.malformedCharacter, ['\''])
  unexpected : (∀ (c : LexemeClass) (word : List Char), word <+: text → word ∉ c.pattern) →
    found = .error (.unexpectedCharacter, text.take 1)

-- The longest lexeme of a class with several is what is read.
private theorem front_eq_tell (h : IsLongest text lexeme c) (hc : c ≠ identifier) :
    front text = c.tell lexeme :=
  front_of_isLongest h fun heq ↦ absurd heq hc

private theorem class_of_integer (h : lexeme ∈ c.pattern) (hkind : c.kind = .integer) :
    c = decimal ∨ c = hexadecimal ∨ c = binary := by
  cases c with
  | spelled kind => exact absurd (congrArg _ hkind) (kind_ne_of_mem_pattern h rfl)
  | decimal => exact .inl rfl
  | hexadecimal => exact .inr (.inl rfl)
  | binary => exact .inr (.inr rfl)
  | _ => cases hkind

private theorem class_of_string (h : lexeme ∈ c.pattern) (hkind : c.kind = .string) :
    c = closedString ∨ c = openString := by
  cases c with
  | spelled kind => exact absurd (congrArg _ hkind) (kind_ne_of_mem_pattern h rfl)
  | closedString => exact .inl rfl
  | openString => exact .inr rfl
  | _ => cases hkind

private theorem tell_closedString (body : List Char) :
    closedString.tell ('"' :: body ++ ['"']) =
      match Text.Quoted.decode body with
      | some value => .ok (⟨.string, .text (String.ofList value)⟩, '"' :: body ++ ['"'])
      | none => .error (.unknownEscape, '"' :: body ++ ['"']) := by
  have hbody : (('"' :: body ++ ['"']).drop 1).dropLast = body := by
    rw [List.cons_append, List.drop_one, List.tail_cons, List.dropLast_concat]
  simp only [LexemeClass.tell, LexemeClass.read, hbody]
  cases Text.Quoted.decode body with
  | none => rfl
  | some value => rfl

-- What is read between single quotes, if that stands for one character or for none.
private theorem tell_character {inner : List Char} (meant : Option Char)
    (h : Text.Quoted.decode inner = meant.map ([·])) :
    character.tell ('\'' :: (inner ++ ['\''])) =
      match meant with
      | some x => .ok (⟨.character, .character x⟩, '\'' :: (inner ++ ['\'']))
      | none => .error (.unknownEscape, '\'' :: (inner ++ ['\''])) := by
  have hinner : (('\'' :: (inner ++ ['\''])).drop 1).dropLast = inner := by
    rw [List.drop_one, List.tail_cons, List.dropLast_concat]
  simp only [LexemeClass.tell, LexemeClass.read, hinner, h]
  cases meant with
  | none => rfl
  | some x => rfl

private theorem decode_escape (x : Char) :
    Text.Quoted.decode ['\\', x] = (Text.Quoted.escaped? x).map ([·]) := by
  simp only [Text.Quoted.decode]
  cases Text.Quoted.escaped? x with
  | none => rfl
  | some meant => rfl

private theorem digits_of_based {lower upper mark : Char} {digit : Char → Bool}
    {digits : List Char} (h : '0' :: mark :: digits ∈ based lower upper digit) :
    ∀ x ∈ digits, digit x = true := by
  obtain ⟨_, _, -, hdigits, heq⟩ := mem_based.1 h
  cases heq
  exact (mem_many.1 hdigits).2

private theorem numeral_decimal (h : lexeme ∈ decimal.pattern) :
    numeral 10 lexeme = positional 10 lexeme :=
  numeral_eq_positional 10 fun x hx ↦ isHexDigit_of_isDigit ((mem_many.1 h).2 x hx)

private theorem numeral_hexadecimal {mark : Char} {digits : List Char}
    (h : '0' :: mark :: digits ∈ hexadecimal.pattern) :
    numeral 16 digits = positional 16 digits :=
  numeral_eq_positional 16 (digits_of_based h)

private theorem numeral_binary {mark : Char} {digits : List Char}
    (h : '0' :: mark :: digits ∈ binary.pattern) : numeral 2 digits = positional 2 digits :=
  numeral_eq_positional 2 fun x hx ↦ isHexDigit_of_isBinaryDigit (digits_of_based h x hx)

private theorem read_integer {terminal : Terminal} (h : lexeme ∈ c.pattern)
    (hread : c.read lexeme = .ok terminal) (hkind : terminal.kind = .integer) :
    ∃ base digits, terminal = ⟨.integer, .integer (positional base digits)⟩ ∧
      (base = 10 ∧ lexeme = digits ∧ c = decimal ∨
        base = 16 ∧ (∃ mark, lexeme = '0' :: mark :: digits) ∧ c = hexadecimal ∨
        base = 2 ∧ (∃ mark, lexeme = '0' :: mark :: digits) ∧ c = binary) := by
  rw [kind_of_read hread] at hkind
  obtain rfl | rfl | rfl := class_of_integer h hkind
  · cases hread
    rw [numeral_decimal h]
    exact ⟨10, lexeme, rfl, .inl ⟨rfl, rfl, rfl⟩⟩
  · obtain ⟨mark, digits, -, -, rfl⟩ := mem_based.1 h
    cases hread
    rw [List.drop_succ_cons, List.drop_succ_cons, List.drop_zero, numeral_hexadecimal h]
    exact ⟨16, digits, rfl, .inr (.inl ⟨rfl, ⟨mark, rfl⟩, rfl⟩)⟩
  · obtain ⟨mark, digits, -, -, rfl⟩ := mem_based.1 h
    cases hread
    rw [List.drop_succ_cons, List.drop_succ_cons, List.drop_zero, numeral_binary h]
    exact ⟨2, digits, rfl, .inr (.inr ⟨rfl, ⟨mark, rfl⟩, rfl⟩)⟩

private theorem read_string {terminal : Terminal} (h : lexeme ∈ c.pattern)
    (hread : c.read lexeme = .ok terminal) (hkind : terminal.kind = .string) :
    ∃ body ∈ (quotable '"' isEscape)∗, ∃ value, Text.Quoted.decode body = some value ∧
      lexeme = '"' :: body ++ ['"'] ∧ terminal = ⟨.string, .text (String.ofList value)⟩ := by
  rw [kind_of_read hread] at hkind
  obtain rfl | rfl := class_of_string h hkind
  · obtain ⟨_, hfront, rfl⟩ := mem_mul_singleton.1 h
    obtain ⟨body, hbody, rfl⟩ := mem_singleton_mul.1 hfront
    have htell := tell_closedString body
    change LexemeClass.tell closedString (['"'] ++ body ++ ['"']) = _ at htell
    rw [tell_eq_ok.2 ⟨hread, rfl⟩] at htell
    split at htell
    · next value hvalue =>
      cases htell
      exact ⟨body, (isSome_decode hbody).1 (by rw [hvalue]; rfl), value, hvalue, rfl, rfl⟩
    · cases htell
  · cases hread

private theorem front_munches (text : List Char) : Munches text (front text) where
  taken terminal lexeme h := isLongest_of_front h
  refused fault snippet h := by
    obtain ⟨hnone, hfront⟩ | ⟨c, lexeme, hlongest, hfront⟩ := front_cases text
    · rw [hfront] at h
      cases h
      exact .inr ⟨hnone, rfl⟩
    · rw [hfront, tell_eq_error] at h
      obtain ⟨hread, rfl⟩ := h
      exact .inl ⟨c, hlongest, hread⟩
  literal c lexeme hfixed h := by
    refine front_of_isLongest h fun heq ↦ ?_
    subst heq
    cases hfixed
  name name h hfree := front_of_isLongest h fun _ ↦ hfree
  integer terminal lexeme := by
    constructor
    · rintro ⟨h, hkind⟩
      obtain ⟨c, hlongest, hread⟩ := isLongest_of_front h
      obtain ⟨base, digits, rfl, ⟨rfl, rfl, rfl⟩ | ⟨rfl, hmark, rfl⟩ | ⟨rfl, hmark, rfl⟩⟩ :=
        read_integer hlongest.accepted hread hkind
      · exact ⟨10, lexeme, rfl, .inl ⟨rfl, rfl, hlongest⟩⟩
      · exact ⟨16, digits, rfl, .inr (.inl ⟨rfl, hmark, hlongest⟩)⟩
      · exact ⟨2, digits, rfl, .inr (.inr ⟨rfl, hmark, hlongest⟩)⟩
    · rintro ⟨base, digits, rfl, ⟨rfl, rfl, hlongest⟩ | ⟨rfl, ⟨mark, rfl⟩, hlongest⟩ |
        ⟨rfl, ⟨mark, rfl⟩, hlongest⟩⟩
      · rw [front_eq_tell hlongest (by decide), ← numeral_decimal hlongest.accepted]
        exact ⟨rfl, rfl⟩
      · rw [front_eq_tell hlongest (by decide), ← numeral_hexadecimal hlongest.accepted]
        exact ⟨rfl, rfl⟩
      · rw [front_eq_tell hlongest (by decide), ← numeral_binary hlongest.accepted]
        exact ⟨rfl, rfl⟩
  float lexeme h := by
    rw [front_eq_tell h (by decide)]
    by_cases hfinite : (decimalOf lexeme).nearest.isFinite = true
    · simp only [LexemeClass.tell, LexemeClass.read, hfinite, if_true]
    · simp only [LexemeClass.tell, LexemeClass.read, hfinite, if_false, Bool.false_eq_true]
  string terminal lexeme := by
    constructor
    · rintro ⟨h, hkind⟩
      obtain ⟨c, hlongest, hread⟩ := isLongest_of_front h
      obtain ⟨body, hbody, value, hvalue, hlexeme, hterminal⟩ :=
        read_string hlongest.accepted hread hkind
      exact ⟨body, hbody, value, hvalue, hlexeme, hlongest.stands, hterminal⟩
    · rintro ⟨body, hbody, value, hvalue, rfl, hstands, rfl⟩
      have hlongest := isLongest_closedString (mem_body_of_escapes hbody) hstands
      rw [front_eq_tell hlongest (by decide), tell_closedString, hvalue]
      exact ⟨rfl, rfl⟩
  unknownEscape body hbody h hescapes := by
    have hnone : Text.Quoted.decode body = none := by
      rwa [← Option.not_isSome_iff_eq_none, isSome_decode hbody]
    rw [front_eq_tell (isLongest_closedString hbody h) (by decide), tell_closedString, hnone]
  unterminated hhead h := by
    cases text with
    | nil => cases hhead
    | cons x rest =>
      cases hhead
      have hlongest := isLongest_openString h
      refine ⟨_, (Begins.body rest).2, hlongest.stands, fun other hother hstands ↦ ?_,
        front_eq_tell hlongest (by decide)⟩
      have hle := hlongest.longest openString _ hstands (mem_singleton_mul.2 ⟨other, hother, rfl⟩)
      exact Nat.le_of_succ_le_succ hle
  plain x hquote hbackslash h := by
    have hlongest := isLongest_character (mem_character.2 (.inl ⟨x, hquote, hbackslash, rfl⟩)) h
    rw [front_eq_tell hlongest (by decide)]
    exact tell_character (some x) (decode_plain hbackslash [])
  escape x hx h := by
    have hline : x ≠ '\n' := by simpa [staysInLine] using staysInLine_of_isEscape hx
    have hlongest := isLongest_character (mem_character.2 (.inr ⟨x, hline, rfl⟩)) h
    rw [← isSome_escaped] at hx
    obtain ⟨meant, hmeant⟩ := Option.isSome_iff_exists.1 hx
    have hdecode := decode_escape x
    rw [hmeant] at hdecode
    rw [front_eq_tell hlongest (by decide)]
    exact ⟨meant, hmeant, tell_character (some meant) hdecode⟩
  noEscape x hx hline h := by
    have hlongest := isLongest_character (mem_character.2 (.inr ⟨x, hline, rfl⟩)) h
    have hdecode := decode_escape x
    rw [← isSome_escaped, Option.isSome_eq_false_iff, Option.isNone_iff_eq_none] at hx
    rw [hx] at hdecode
    rw [front_eq_tell hlongest (by decide)]
    exact tell_character none hdecode
  malformed hhead h := by
    cases text with
    | nil => cases hhead
    | cons x rest =>
      cases hhead
      exact front_eq_tell (isLongest_loneQuote h) (by decide)
  unexpected h := by
    obtain ⟨-, hfront⟩ | ⟨c, lexeme, hlongest, -⟩ := front_cases text
    · exact hfront
    · exact absurd hlongest.accepted (h c lexeme hlongest.stands)

/-- Wherever the scanner begins to look for a token, it passes the blanks and then reads what the
patterns of lexemes say, to go on behind the lexeme or to end with the error. -/
theorem munches_of_scan (file : String) (place : Place) (text : List Char) :
    Munches (text.dropWhile isBlank) (front (text.dropWhile isBlank)) ∧
      scan file 0 place text =
        match text.dropWhile isBlank with
        | [] => .ok [⟨⟨.endOfInput, .none⟩,
            ((text.takeWhile isBlank).foldl Place.after place).inFile file⟩]
        | x :: rest =>
          match front (x :: rest) with
          | .error (fault, snippet) =>
            .error ⟨((text.takeWhile isBlank).foldl Place.after place).inFile file, fault,
              String.ofList snippet⟩
          | .ok (terminal, lexeme) =>
            (scan file 0 ((text.takeWhile isBlank ++ lexeme).foldl Place.after place)
              ((x :: rest).drop lexeme.length)).map
                (⟨terminal, ((text.takeWhile isBlank).foldl Place.after place).inFile file⟩ ::
                  ·) := by
  refine ⟨front_munches _, ?_⟩
  induction text generalizing place with
  | nil => exact scan_nil file 0 place
  | cons x rest ih =>
    cases hx : isBlank x with
    | true =>
      rw [scan_blank hx, ih, List.takeWhile_cons_of_pos hx, List.dropWhile_cons_of_pos hx]
      rfl
    | false =>
      have hx' : ¬ isBlank x = true := by simp [hx]
      rw [scan_front hx, List.takeWhile_cons_of_neg hx', List.dropWhile_cons_of_neg hx']
      rfl

end Token

end Offside
