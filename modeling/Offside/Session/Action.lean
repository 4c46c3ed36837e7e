import Offside.Reading
import Offside.Session.Combinator

/-!
# Sessions

A session performs actions on one parse state, one after the other, and each action shows what it
observed. A fault ends the session.
-/

namespace Offside.Session

open Packrat

/-- What is done with a parse state. -/
inductive Action where
  /-- Looks at the token some places ahead. -/
  | peek (ahead : Nat)
  /-- Passes the next token. -/
  | advance
  /-- Looks at the token before the position. -/
  | previous
  /-- Asks whether the input goes on. -/
  | hasNext
  /-- Goes to a position. -/
  | moveTo (position : Nat)
  /-- Reads a whole program. -/
  | program
  /-- Runs a composed parser. -/
  | parse (combinator : Combinator)

/-- What an action shows. -/
inductive Observation where
  | token (token : Token)
  | noToken
  | truth (value : Bool)
  | nothing
  | program (answer : Except ParseError Program)
  | outcome (outcome : Outcome Value)

/-- What an action shows, and the state it leaves. -/
def perform (input : Input) (state : State) : Action → Except Fault (Observation × State)
  | .peek ahead => .ok (.token (input.tokenAt (state.position + ahead)), state)
  | .advance => .ok (.token (state.current input), state.advance input)
  | .previous =>
    match state.previous? input with
    | some token => .ok (.token token, state)
    | none => .ok (.noToken, state)
  | .hasNext => .ok (.truth ((state.current input).kind ≠ .endOfInput), state)
  | .moveTo position => .ok (.nothing, state.moveTo position)
  | .program =>
    (Program.parseAt input state).map fun (outcome, reached) =>
      (.program outcome.toExcept, reached)
  | .parse combinator =>
    (Grammar.parse combinator.parser input state).map fun (outcome, reached) =>
      (.outcome outcome, reached)

/-- What the actions show one after the other, each with the state it leaves, and the fault that
ended the session early, if one did. -/
def performAll (input : Input) :
    State → List Action → List (Observation × State) × Option Fault
  | _, [] => ([], none)
  | state, action :: rest =>
    match perform input state action with
    | .error fault => ([], some fault)
    | .ok (observation, reached) =>
      let (later, fault) := performAll input reached rest
      ((observation, reached) :: later, fault)

end Offside.Session
