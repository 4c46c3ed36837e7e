import Offside.Proofs.Source.Disjoint
import Offside.Proofs.Source.Scan

/-!
# The front of a text

`Token.front` reads the one lexeme that a text begins with. The scanner passes blanks and otherwise
reads the front, then goes on behind the lexeme (`Token.scan_front`). Of all lexemes that stand at
the front the longest is read, and of two classes that have it the one with a single spelling
(`Token.front_of_isLongest`).
-/

namespace Offside

open LexemeClass

/-- What a lexeme of the class says: the terminal it writes, or what is wrong with it. -/
def LexemeClass.tell (lexemeClass : LexemeClass) (lexeme : List Char) :
    Except (LexicalFault × List Char) (Terminal × List Char) :=
  match lexemeClass.read lexeme with
  | .error fault => .error (fault, lexeme)
  | .ok terminal => .ok (terminal, lexeme)

/-- A lexeme is told as what it is read as, if it is read. -/
theorem LexemeClass.tell_eq_ok {c : LexemeClass} {lexeme word : List Char} {terminal : Terminal} :
    c.tell lexeme = .ok (terminal, word) ↔ c.read lexeme = .ok terminal ∧ word = lexeme := by
  unfold tell
  cases c.read lexeme with
  | error fault => simp
  | ok other => simp [eq_comm]

/-- A lexeme is told as a fault if it is read as that fault. -/
theorem LexemeClass.tell_eq_error {c : LexemeClass} {lexeme snippet : List Char}
    {fault : LexicalFault} :
    c.tell lexeme = .error (fault, snippet) ↔ c.read lexeme = .error fault ∧ snippet = lexeme := by
  unfold tell
  cases c.read lexeme with
  | error other => simp [eq_comm]
  | ok terminal => simp

namespace Token

variable {file : String} {place : Place} {x : Char} {text lexeme word rest : List Char}
  {c : LexemeClass} {n : Nat}

/-- The terminal and the lexeme that a text begins with, or what is wrong with it and the characters
at fault. -/
def front (text : List Char) : Except (LexicalFault × List Char) (Terminal × List Char) :=
  match LexemeClass.longest text with
  | none => .error (.unexpectedCharacter, text.take 1)
  | some (lexemeClass, length) => lexemeClass.tell (text.take length)

/-- The longest lexeme stands at the front of the text. -/
theorem begins_of_longest {lexemeClass : LexemeClass} {length : Nat}
    (h : LexemeClass.longest text = some (lexemeClass, length)) :
    0 < length ∧ Lexeme.Begins lexemeClass.pattern text length := by
  obtain ⟨-, rfl, hpos⟩ := LexemeClass.mem_of_longestOf h
  exact ⟨hpos, LexemeClass.begins_extent hpos⟩

/-! ### The longest lexeme -/

/-- The lexeme is one of the class, it stands at the front of the text, and no lexeme of any class
that stands there is longer. -/
structure IsLongest (text lexeme : List Char) (lexemeClass : LexemeClass) : Prop where
  stands : lexeme <+: text
  accepted : lexeme ∈ lexemeClass.pattern
  longest : ∀ (other : LexemeClass) (word : List Char), word <+: text → word ∈ other.pattern →
    word.length ≤ lexeme.length

private theorem isLongest_of_longest (h : longest text = some (c, n)) :
    IsLongest text (text.take n) c := by
  obtain ⟨-, hlength, hmem⟩ := begins_of_longest h
  refine ⟨List.take_prefix .., hmem, fun other word hword hother ↦ ?_⟩
  obtain ⟨rest, rfl⟩ := hword
  rw [List.length_take, Nat.min_eq_left hlength]
  exact Nat.le_trans (length_le_extent hother rest)
    ((max_of_longestOf h).1 other (mem_all_of_mem_pattern hother))

private theorem longest_ne_none (hword : word <+: text) (h : word ∈ c.pattern) :
    longest text ≠ none := by
  intro hnone
  obtain ⟨rest, rfl⟩ := hword
  have hle := length_le_extent h rest
  rw [extent_of_longestOf_none hnone c (mem_all_of_mem_pattern h)] at hle
  exact ne_nil_of_mem_pattern h (List.length_eq_zero_iff.1 (Nat.le_zero.1 hle))

private theorem extent_lt_of_longest (h : longest text = some (c, n)) :
    ∀ d ∈ all.takeWhile (· ≠ c), d.extent text < n :=
  (max_of_longestOf h).2

attribute [local irreducible] LexemeClass.longest LexemeClass.read

/-- The longest lexeme is the one that is read, as one of its class, and as a name only if no class
has it for its one spelling. -/
theorem front_of_isLongest (h : IsLongest text lexeme c)
    (hname : c = identifier → ∀ d : LexemeClass, d.fixed? ≠ some lexeme) :
    front text = c.tell lexeme := by
  unfold front
  cases hlongest : longest text with
  | none => exact absurd hlongest (longest_ne_none h.stands h.accepted)
  | some found =>
    obtain ⟨d, n⟩ := found
    have hother := isLongest_of_longest hlongest
    have hlength : (text.take n).length = lexeme.length :=
      Nat.le_antisymm (h.longest d _ hother.stands hother.accepted)
        (hother.longest c _ h.stands h.accepted)
    have heq : text.take n = lexeme :=
      (List.prefix_of_prefix_length_le hother.stands h.stands (Nat.le_of_eq hlength)).eq_of_length
        hlength
    dsimp only
    rw [heq] at hother ⊢
    obtain rfl | ⟨rfl, hfixed, hquote⟩ | ⟨rfl, hfixed, -⟩ :=
      eq_of_mem_pattern h.accepted hother.accepted
    · rfl
    · -- The class of one spelling comes first, so the name cannot have been taken.
      have hbefore := fixed_before_identifier c (mem_all_of_mem_pattern h.accepted)
        (by rw [hfixed]; rfl) hquote
      have hlt := extent_lt_of_longest hlongest c hbefore
      have hn := (begins_of_longest hlongest).2.1
      rw [List.length_take, Nat.min_eq_left hn] at hlength
      obtain ⟨rest, rfl⟩ := h.stands
      have hle := length_le_extent h.accepted rest
      omega
    · exact absurd hfixed (hname rfl d)

/-- Either no class has a lexeme at the front, or what the longest one says is read. -/
theorem front_cases (text : List Char) :
    ((∀ (c : LexemeClass) (word : List Char), word <+: text → word ∉ c.pattern) ∧
      front text = .error (.unexpectedCharacter, text.take 1)) ∨
      ∃ (c : LexemeClass) (lexeme : List Char), IsLongest text lexeme c ∧
        front text = c.tell lexeme := by
  unfold front
  cases hlongest : longest text with
  | none => exact .inl ⟨fun c word hword h ↦ longest_ne_none hword h hlongest, rfl⟩
  | some found => exact .inr ⟨found.1, _, isLongest_of_longest hlongest, rfl⟩

/-- What is read is the longest lexeme, and the class that has it reads the terminal of it. -/
theorem isLongest_of_front {terminal : Terminal} (h : front text = .ok (terminal, lexeme)) :
    ∃ c : LexemeClass, IsLongest text lexeme c ∧ c.read lexeme = .ok terminal := by
  obtain ⟨-, hfront⟩ | ⟨c, word, hlongest, hfront⟩ := front_cases text
  · rw [hfront] at h
    cases h
  · rw [hfront, tell_eq_ok] at h
    obtain ⟨hread, rfl⟩ := h
    exact ⟨c, hlongest, hread⟩

/-- Characters at fault begin the text. -/
theorem snippet_of_front {fault : LexicalFault} {snippet : List Char} (hne : text ≠ [])
    (h : front text = .error (fault, snippet)) : snippet ≠ [] ∧ snippet <+: text := by
  obtain ⟨-, hfront⟩ | ⟨c, word, hlongest, hfront⟩ := front_cases text
  · rw [hfront] at h
    cases h
    refine ⟨fun hnil ↦ ?_, List.take_prefix ..⟩
    rw [List.take_eq_nil_iff] at hnil
    exact hne (hnil.resolve_left Nat.one_ne_zero)
  · rw [hfront, tell_eq_error] at h
    obtain ⟨-, rfl⟩ := h
    exact ⟨ne_nil_of_mem_pattern hlongest.accepted, hlongest.stands⟩

/-! ### The scanner and the front -/

/-- Characters that are pending are passed, be there fewer of them left or not. -/
theorem scan_pending (file : String) (pending : Nat) (place : Place) (text : List Char) :
    scan file pending place text =
      scan file 0 ((text.take pending).foldl Place.after place) (text.drop pending) := by
  induction text generalizing pending place with
  | nil => rw [List.take_nil, List.drop_nil, scan_nil, scan_nil, List.foldl_nil]
  | cons c rest ih =>
    cases pending with
    | zero => rfl
    | succ pending => exact ih pending (place.after c)

/-- A blank is passed. -/
theorem scan_blank (hx : isBlank x = true) :
    scan file 0 place (x :: rest) = scan file 0 (place.after x) rest := by
  rw [scan_zero, if_pos hx]

/-- Where it stands before no blank, the scanner reads the front and goes on behind the lexeme. -/
theorem scan_front (hx : isBlank x = false) :
    scan file 0 place (x :: rest) =
      match front (x :: rest) with
      | .error (fault, snippet) => .error ⟨place.inFile file, fault, String.ofList snippet⟩
      | .ok (terminal, lexeme) =>
        (scan file 0 (lexeme.foldl Place.after place) ((x :: rest).drop lexeme.length)).map
          (⟨terminal, place.inFile file⟩ :: ·) := by
  rw [scan_zero, if_neg (by simp [hx])]
  unfold front
  cases hlongest : LexemeClass.longest (x :: rest) with
  | none => rfl
  | some found =>
    obtain ⟨lexemeClass, length⟩ := found
    obtain ⟨hpos, hlength, -⟩ := begins_of_longest hlongest
    dsimp only
    unfold LexemeClass.tell
    cases hread : lexemeClass.read ((x :: rest).take length) with
    | error fault => rfl
    | ok terminal =>
      obtain ⟨length, rfl⟩ := Nat.exists_eq_add_one_of_ne_zero (Nat.ne_of_gt hpos)
      dsimp only
      rw [List.length_take, Nat.min_eq_left hlength, Nat.add_sub_cancel, scan_pending file length,
        List.take_succ_cons, List.foldl_cons, List.drop_succ_cons]
      cases scan file 0 ((rest.take length).foldl Place.after (place.after x)) (rest.drop length)
      · rfl
      · rfl

end Token

end Offside
