import Offside.Grammar.Rule

/-!
# Outcomes

A parser succeeds with a value, fails recoverably, so that another alternative may be tried, or
fails fatally, because the part of the grammar that the input is in is already certain. A failure
is a location and a cause. A `Fault` is no outcome: it says that a parser was used against its
contract.

Specification §3 (outcomes), §4.1 (what is done with them) and §7 (which failures are fatal).
-/

namespace Offside

/-- Why no value could be made of the tokens at a location. -/
inductive Problem where
  | expectedToken (kind : TokenKind) (found : Terminal)
  /-- What is missing is known only by a name. -/
  | expectedNamed (what : String) (found : Terminal)
  /-- The line ended before what may only continue it. -/
  | expectedSameLine (found : Terminal)
  | expectedOneOrMore (found : Terminal)
  | noAlternative (found : Terminal)
  /-- An `else` stands outside the column of its block. -/
  | expectedElse (column : Nat)
  | expectedBlock
  /-- What would begin a line of a block stands in no column. -/
  | noColumn
  /-- The pattern that begins at the location takes the rest twice. -/
  | severalVariadics (start : Location)
  /-- A cause in the words of who states it. -/
  | stated (message : String)
  deriving DecidableEq, Inhabited

/-- The cause as messages show it. -/
def Problem.message : Problem → String
  | expectedToken kind found => s!"expected {kind.describe}, found {found.describe}"
  | expectedNamed what found => s!"expected {what}, found {found.describe}"
  | expectedSameLine found => s!"expected continuation of line, found {found.describe}"
  | expectedOneOrMore found => s!"expected one or more, found {found.describe}"
  | noAlternative found => s!"no alternative matched {found.describe}"
  | expectedElse column => s!"expected 'else' in column {column}"
  | expectedBlock => "expected indented block"
  | noColumn => "generated location cannot delimit a block"
  | severalVariadics start =>
    s!"pattern starting at {start.text} has more than one variadic element"
  | stated message => message

/-- A cause at a location. -/
structure Failure where
  location : Location
  problem : Problem
  deriving DecidableEq, Inhabited

namespace Failure

/-- The failure in words, without its location. -/
def message (failure : Failure) : String := failure.problem.message

/-- The failure as messages show it. -/
def text (failure : Failure) : String := s!"{failure.location.text}: {failure.message}"

end Failure

/-- A use of a parser against its contract. Specification §10.3, the last point. -/
inductive Fault where
  /-- A token of the kind does not carry the value that the kind requires. -/
  | missingValue (kind : TokenKind)
  /-- What is remembered for a rule is a node of another family. -/
  | foreignNode (rule : Rule)
  /-- A success was to be passed on as a failure. -/
  | successAsFailure
  /-- The bound on repetitions and on nested rules was reached, which no input does. -/
  | exhausted
  deriving DecidableEq, Inhabited

/-- The fault as messages show it. -/
def Fault.message : Fault → String
  | missingValue .identifier =>
    "internal error: entered unreachable code: identifier token without a name"
  | missingValue kind =>
    s!"internal error: entered unreachable code: {kind.describe} token without a value"
  | foreignNode rule =>
    s!"internal error: entered unreachable code: memo entry for {rule.name} holds a different " ++
      "node type"
  | successAsFailure => "cannot transmute a successful outcome"
  | exhausted => "bound on nested rules exceeded"

/-- How certain a failed parser was of its place in the grammar. -/
inductive Severity where
  | recoverable
  | fatal
  deriving DecidableEq, Inhabited

/-- A failure that is the answer to a whole parse. Specification §10.3. -/
structure ParseError where
  severity : Severity
  failure : Failure
  deriving DecidableEq, Inhabited

/-- What a parser answers. Specification §3. -/
inductive Outcome (α : Type) where
  | ok (value : α)
  | recoverable (failure : Failure)
  | fatal (failure : Failure)
  deriving DecidableEq

namespace Outcome

variable {α β : Type}

/-- An outcome there always is, a failure. -/
instance : Inhabited (Outcome α) := ⟨.recoverable default⟩

/-- The outcome is a success. -/
def isOk : Outcome α → Bool
  | ok _ => true
  | _ => false

/-- The outcome is a failure of either severity. -/
def isFailure (outcome : Outcome α) : Bool := !outcome.isOk

/-- The outcome is a fatal failure. -/
def isFatal : Outcome α → Bool
  | fatal _ => true
  | _ => false

/-- The failure of a failed outcome. -/
def failure? : Outcome α → Option Failure
  | ok _ => none
  | recoverable failure | fatal failure => some failure

/-- The value of a success. -/
def value? : Outcome α → Option α
  | ok value => some value
  | _ => none

/-- Applies a function to the value of a success. Specification §4.1. -/
def map (f : α → β) : Outcome α → Outcome β
  | ok value => ok (f value)
  | recoverable failure => recoverable failure
  | fatal failure => fatal failure

/-- The next outcome on the value of a success, and a failure as it is. -/
def bind (outcome : Outcome α) (next : α → Outcome β) : Outcome β :=
  match outcome with
  | ok value => next value
  | recoverable failure => recoverable failure
  | fatal failure => fatal failure

/-- A failure as an outcome of another type. A success has no such reading. Specification §4.1. -/
def asFailure : Outcome α → Except Fault (Outcome β)
  | ok _ => .error .successAsFailure
  | recoverable failure => .ok (recoverable failure)
  | fatal failure => .ok (fatal failure)

/-- A recoverable failure becomes fatal. Specification §4.1. -/
def commit : Outcome α → Outcome α
  | recoverable failure => fatal failure
  | outcome => outcome

/-- A recoverable failure becomes a fatal one of another cause. Specification §4.1. -/
def commitAs (problem : Problem) : Outcome α → Outcome α
  | recoverable failure => fatal ⟨failure.location, problem⟩
  | outcome => outcome

/-- The outcome as the answer to a whole parse. Specification §10.3. -/
def toExcept : Outcome α → Except ParseError α
  | ok value => .ok value
  | recoverable failure => .error ⟨.recoverable, failure⟩
  | fatal failure => .error ⟨.fatal, failure⟩

end Outcome

end Offside
