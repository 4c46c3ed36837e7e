import Offside.Source.Scan

/-!
# Laws of the scanner

The equations of the scanner, and how the tokens of a text end: with the end of the input.
-/

namespace Offside.Token

attribute [local irreducible] LexemeClass.longest LexemeClass.read

/-- At the end of the text stands the end of the input. -/
theorem scan_nil (file : String) (pending : Nat) (place : Place) :
    scan file pending place [] = .ok [⟨⟨.endOfInput, .none⟩, place.inFile file⟩] := by
  cases pending <;> rfl

/-- The characters of the lexeme that was read last are passed. -/
theorem scan_succ (file : String) (pending : Nat) (place : Place) (c : Char) (rest : List Char) :
    scan file (pending + 1) place (c :: rest) = scan file pending (place.after c) rest := rfl

/-- Where no lexeme is pending, a blank is passed and the longest lexeme is read. -/
theorem scan_zero (file : String) (place : Place) (c : Char) (rest : List Char) :
    scan file 0 place (c :: rest) =
      if isBlank c then scan file 0 (place.after c) rest
      else
        match LexemeClass.longest (c :: rest) with
        | none => .error ⟨place.inFile file, .unexpectedCharacter, String.ofList [c]⟩
        | some (lexemeClass, length) =>
          match lexemeClass.read ((c :: rest).take length) with
          | .error fault =>
            .error ⟨place.inFile file, fault, String.ofList ((c :: rest).take length)⟩
          | .ok terminal =>
            match scan file (length - 1) (place.after c) rest with
            | .error error => .error error
            | .ok later => .ok (⟨terminal, place.inFile file⟩ :: later) := by
  rfl

/-- Where no lexeme is pending, scanning passes a blank or writes the token of a lexeme. -/
theorem scan_cases {file : String} {place : Place} {c : Char} {rest : List Char}
    {tokens : List Token} (h : scan file 0 place (c :: rest) = .ok tokens) :
    (isBlank c = true ∧ scan file 0 (place.after c) rest = .ok tokens) ∨
      ∃ lexemeClass length terminal later,
        LexemeClass.longest (c :: rest) = some (lexemeClass, length) ∧
        lexemeClass.read ((c :: rest).take length) = .ok terminal ∧
        scan file (length - 1) (place.after c) rest = .ok later ∧
        tokens = ⟨terminal, place.inFile file⟩ :: later := by
  rw [scan_zero] at h
  split at h
  · next hblank => exact .inl ⟨hblank, h⟩
  · split at h
    · cases h
    · next lexemeClass length hlongest =>
      split at h
      · cases h
      · next terminal hread =>
        split at h
        · cases h
        · next later hlater =>
          cases h
          exact .inr ⟨lexemeClass, length, terminal, later, hlongest, hread, hlater, rfl⟩

/-- Scanning that succeeds ends with the end of the input. -/
theorem getLast?_of_scan {file : String} {pending : Nat} {place : Place} {text : List Char}
    {tokens : List Token} (h : scan file pending place text = .ok tokens) :
    ∃ location, tokens.getLast? = some ⟨⟨.endOfInput, .none⟩, location⟩ := by
  induction text generalizing pending place tokens with
  | nil =>
    rw [scan_nil] at h
    cases h
    exact ⟨place.inFile file, rfl⟩
  | cons c rest ih =>
    cases pending with
    | succ pending => exact ih h
    | zero =>
      obtain ⟨-, h⟩ | ⟨_, _, _, later, -, -, hlater, rfl⟩ := scan_cases h
      · exact ih h
      · obtain ⟨location, hlast⟩ := ih hlater
        refine ⟨location, ?_⟩
        rw [List.getLast?_cons, hlast, Option.getD_some]

/-- The tokens of a source text end with the end of the input. -/
theorem getLast?_of_ofSource {file source : String} {tokens : List Token}
    (h : ofSource file source = .ok tokens) :
    ∃ location, tokens.getLast? = some ⟨⟨.endOfInput, .none⟩, location⟩ :=
  getLast?_of_scan h

end Offside.Token
