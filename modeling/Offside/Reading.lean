import Offside.Grammar.Productions
import Offside.Source.Scan

/-!
# Reading programs

The whole way from a source text to its program.

Specification §6 (the entry point of the parser).
-/

namespace Offside

open Packrat

/-- Why a source text is no program. -/
inductive Rejection where
  | lexical (error : LexicalError)
  | parse (error : ParseError)
  | fault (cause : Fault)
  deriving DecidableEq, Inhabited

/-- The rejection as messages show it. -/
def Rejection.text : Rejection → String
  | lexical error => error.text
  | parse error => error.failure.text
  | fault cause => cause.message

namespace Program

/-- The program that begins at a state, and the state reached. -/
def parseAt (input : Input) (state : State) : Except Fault (Outcome Program × State) :=
  Grammar.parse (.rule .program) input state

/-- The program that tokens form. -/
def ofTokens (tokens : List Token) (memoize : Bool) : Except Rejection Program :=
  match parseAt ⟨tokens.toArray, memoize⟩ .start with
  | .error fault => .error (.fault fault)
  | .ok (outcome, _) => outcome.toExcept.mapError .parse

/-- The program that the text of a file writes. -/
def ofSource (file source : String) (memoize : Bool) : Except Rejection Program :=
  match Token.ofSource file source with
  | .error error => .error (.lexical error)
  | .ok tokens => ofTokens tokens memoize

/-- A program is read from a source text if the tokens of the text are read as the program. -/
theorem ofSource_eq_ok {file source : String} {memoize : Bool} {program : Program} :
    ofSource file source memoize = .ok program ↔
      ∃ tokens reached, Token.ofSource file source = .ok tokens ∧
        parseAt ⟨tokens.toArray, memoize⟩ .start = .ok (.ok program, reached) := by
  unfold ofSource ofTokens
  cases htokens : Token.ofSource file source with
  | error error => simp
  | ok tokens =>
    dsimp only
    rcases hparse : parseAt ⟨tokens.toArray, memoize⟩ .start with
      fault | ⟨found | failure | failure, reached⟩
    · simp [hparse]
    · change Except.ok found = .ok program ↔ _
      simp [hparse]
    · change Except.error _ = Except.ok program ↔ _
      simp [hparse]
    · change Except.error _ = Except.ok program ↔ _
      simp [hparse]

/-- A source text that is checked to be read as a program of a certain form is read as one. -/
theorem exists_of_check (source : String) (check : Program → Bool)
    (h : ((ofSource "f" source true).toOption.any check) = true) :
    ∃ program, ofSource "f" source true = .ok program ∧ check program = true := by
  cases hread : ofSource "f" source true with
  | error error =>
    rw [hread] at h
    cases h
  | ok program =>
    rw [hread] at h
    exact ⟨program, rfl, h⟩

end Program

end Offside
