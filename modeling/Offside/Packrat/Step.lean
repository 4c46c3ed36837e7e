import Offside.Packrat.State

/-!
# Steps of a parse

A `Step` reads an input, changes a state and answers an outcome. This module holds the meaning of
every way to combine parsers: which failures are passed on, where the position stands after a
failure, and how a block collects the lines of one column.

Specification §4.2 (remembered calls), §4.3 (the other steps) and §4.4 (blocks).
-/

namespace Offside.Packrat

/-- The meaning of a parser. -/
abbrev Step (α : Type) : Type := Input → State → Except Fault (Outcome α × State)

namespace Step

variable {α β : Type}

/-- Succeeds where it stands. -/
def succeed (value : α) : Step α := fun _ state => .ok (.ok value, state)

/-- Fails recoverably at a token, for a cause that mentions it. -/
def failAt (token : Token) (problem : Terminal → Problem) : Step α := fun _ state =>
  .ok (.recoverable ⟨token.location, problem token.toTerminal⟩, state)

/-- Fails recoverably at the next token. -/
def fail (problem : Terminal → Problem) : Step α := fun input state =>
  failAt (state.current input) problem input state

/-- The second step on the value of the first; a failure is passed on where it stands. -/
def bind (first : Step α) (next : α → Step β) : Step β := fun input state =>
  match first input state with
  | .error fault => .error fault
  | .ok (.ok value, reached) => next value input reached
  | .ok (.recoverable failure, reached) => .ok (.recoverable failure, reached)
  | .ok (.fatal failure, reached) => .ok (.fatal failure, reached)

/-- Changes the outcome of a step, but not the state it reaches. -/
def mapOutcome (f : Outcome α → Outcome β) (step : Step α) : Step β := fun input state =>
  match step input state with
  | .error fault => .error fault
  | .ok (outcome, reached) => .ok (f outcome, reached)

/-- A step whose failures leave the position where it began. -/
def atomic (step : Step α) : Step α := fun input state =>
  match step input state with
  | .error fault => .error fault
  | .ok (.ok value, reached) => .ok (.ok value, reached)
  | .ok (failed, reached) => .ok (failed, reached.moveTo state.position)

/-- The location of the next token. -/
def here : Step Location := fun input state => .ok (.ok (state.current input).location, state)

/-- One token of a kind. Specification §4.3. -/
def token (kind : TokenKind) : Step Token := fun input state =>
  let found := state.current input
  if found.kind = kind then .ok (.ok found, state.advance input)
  else fail (.expectedToken kind) input state

/-- One token of a kind, read as a value and its location. A token of the kind without such a value
is a fault. -/
def value (kind : TokenKind) (read : Payload → Option α) : Step (α × Location) :=
  fun input state =>
    match token kind input state with
    | .error fault => .error fault
    | .ok (.ok found, reached) =>
      match read found.payload with
      | some value => .ok (.ok (value, found.location), reached)
      | none => .error (.missingValue kind)
    | .ok (.recoverable failure, reached) => .ok (.recoverable failure, reached)
    | .ok (.fatal failure, reached) => .ok (.fatal failure, reached)

/-- The end of a line, which may lie just behind: a statement that closes with a block has passed
its last line end already. Specification §10.6, the terminator of statements. -/
def endOfStatement : Step Unit := fun input state =>
  if (state.current input).kind = .endOfLine then .ok (.ok (), state.advance input)
  else if state.isBehindLineEnd input then .ok (.ok (), state)
  else fail (.expectedToken .endOfLine) input state

/-- The step, unless a line has just ended. -/
def sameLine (step : Step α) : Step α := fun input state =>
  if state.isBehindLineEnd input then fail .expectedSameLine input state else step input state

/-- The step, if the next token stands in the column of the innermost block. -/
def inBlockColumn (step : Step α) : Step α := fun input state =>
  if (state.current input).location.column? = some state.indent then step input state
  else fail (fun _ => .expectedElse state.indent) input state

/-- The step chosen by the kind of the next token. -/
def onKind (steps : TokenKind → Step α) : Step α := fun input state =>
  steps (state.current input).kind input state

/-- Both steps in order; a failure of either leaves the position where the first began.
Specification §4.3. -/
def seq (first : Step α) (second : Step β) : Step (α × β) :=
  atomic (bind first fun a => bind second fun b => succeed (a, b))

/-- A value that is judged before it is accepted; a rejection is a failure of the whole.
Specification §4.3. -/
def check (step : Step α) (verdict : α → Outcome β) : Step β :=
  atomic (bind step fun value _ state => .ok (verdict value, state))

/-- The value of the step, or none where it fails recoverably. Specification §4.3. -/
def optional (step : Step α) : Step (Option α) := fun input state =>
  match step input state with
  | .error fault => .error fault
  | .ok (.ok value, reached) => .ok (.ok (some value), reached)
  | .ok (.recoverable _, reached) => .ok (.ok none, reached.moveTo state.position)
  | .ok (.fatal failure, reached) => .ok (.fatal failure, reached)

/-- The first step or, where it fails recoverably, the second from the same position.
Specification §4.3, for one alternative before the others. -/
def orElse (first second : Step α) : Step α := fun input state =>
  match first input state with
  | .ok (.recoverable _, reached) => second input (reached.moveTo state.position)
  | decided => decided

/-- The successes of a step in a row, at most as many as allowed. A success that consumes nothing
is the last one. -/
def repeated (step : Step α) : (allowed : Nat) → Step (List α)
  | 0 => fun _ _ => .error .exhausted
  | allowed + 1 => fun input state =>
    match step input state with
    | .error fault => .error fault
    | .ok (.recoverable _, reached) => .ok (.ok [], reached.moveTo state.position)
    | .ok (.fatal failure, reached) => .ok (.fatal failure, reached)
    | .ok (.ok item, reached) =>
      if reached.position = state.position then .ok (.ok [item], reached)
      else mapOutcome (.map (item :: ·)) (repeated step allowed) input reached

/-- The successes of a step in a row, up to a recoverable failure. Specification §4.3. -/
def many (step : Step α) : Step (List α) := fun input state =>
  repeated step (input.attempts state.position) input state

/-- At least one success of a step in a row. Specification §4.3. -/
def many1 (step : Step α) : Step (List α) :=
  atomic (bind (many step) fun items => if items.isEmpty then fail .expectedOneOrMore
    else succeed items)

/-- The items of a step, of which there must be one. Its want is reported at the first token that
ends no line. -/
def nonEmpty (what : String) (step : Step (List α)) : Step (List α) :=
  bind step fun items input state =>
    if items.isEmpty then
      failAt (input.tokenAt (state.position + input.lineEnds state.position))
        (.expectedNamed what) input state
    else succeed items input state

/-- The items of the lines in a column, at most as many as allowed. -/
def aligned (column : Nat) (locate : α → Location) (line : Step α) :
    (allowed : Nat) → Step (List α)
  | 0 => fun _ _ => .error .exhausted
  | allowed + 1 => fun input state =>
    if (state.current input).location.column? ≠ some column then .ok (.ok [], state)
    else
      match line input state with
      | .error fault => .error fault
      | .ok (.recoverable _, reached) => .ok (.ok [], reached.moveTo state.position)
      | .ok (.fatal failure, reached) => .ok (.fatal failure, reached)
      | .ok (.ok item, reached) =>
        if (locate item).isGenerated then
          .ok (.fatal ⟨locate item, .noColumn⟩, reached.moveTo state.position)
        else mapOutcome (.map (item :: ·)) (aligned column locate line allowed) input reached

/-- An item and the line ends behind it. -/
def line (item : Step α) : Step α :=
  mapOutcome (.map Prod.fst) (seq item (many (token .endOfLine)))

/-- A block: behind any line ends, the lines that begin in the column of the first token, which is
deeper than the enclosing block. No item leaves the position where the block began.
Specification §4.4, where the column of the next token stands for that of the item. -/
def block (locate : α → Location) (item : Step α) : Step (List α) := fun input state =>
  let opening := state.position + input.lineEnds state.position
  let first := input.tokenAt opening
  if first.kind = .endOfInput then
    failAt first (fun _ => .expectedBlock) input state
  else
    match first.location.column? with
    | none => .ok (.fatal ⟨first.location, .noColumn⟩, state)
    | some column =>
      if column ≤ state.indent then failAt first (fun _ => .expectedBlock) input state
      else
        let inside := (state.moveTo opening).openBlock column
        match aligned column locate (line item) (input.attempts opening) input inside with
        | .error fault => .error fault
        | .ok (.ok [], reached) => .ok (.ok [], reached.closeBlock.moveTo state.position)
        | .ok (outcome, reached) => .ok (outcome, reached.closeBlock)

/-- The remembered result of a rule at the position and indent of the state or, where none is
remembered, the result of the step, which is remembered then. Specification §4.2. -/
def remembered (rule : Rule) (step : Step rule.Result) : Step rule.Result := fun input state =>
  if input.memoize then
    let key : Key := ⟨rule, state.position, state.indent⟩
    match state.table.lookup key rule.family with
    | .error fault => .error fault
    | .ok (some (outcome, stop), table) => .ok (outcome, { state with table, position := stop })
    | .ok (none, table) =>
      match step input { state with table } with
      | .error fault => .error fault
      | .ok (outcome, reached) =>
        .ok (outcome, { reached with table := reached.table.store key outcome reached.position })
  else step input state

end Step

end Offside.Packrat
