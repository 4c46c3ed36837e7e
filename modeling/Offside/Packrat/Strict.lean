import Offside.Packrat.Parser

/-!
# Failures passed on strictly

A combinator that goes on after a success alone passes anything else on as a failure of its own
type, and to take a success for a failure is a fault. `Strict.run` reads a parser with every such
passing on taken at its word. The combinators that pass nothing on to another type are those of
`Step`; `Strict.run_eq` says that no reading differs.
-/

namespace Offside.Packrat.Strict

variable {α β : Type}

/-- An outcome passed on where it stands, as a failure of another type. -/
def passOn (outcome : Outcome α) (reached : State) : Except Fault (Outcome β × State) :=
  outcome.asFailure.map (·, reached)

/-- The second step on the value of the first. -/
def bind (first : Step α) (next : α → Step β) : Step β := fun input state =>
  match first input state with
  | .error fault => .error fault
  | .ok (.ok value, reached) => next value input reached
  | .ok (failed, reached) => passOn failed reached

/-- Both steps in order. -/
def seq (first : Step α) (second : Step β) : Step (α × β) :=
  .atomic (bind first fun a => bind second fun b => .succeed (a, b))

/-- A value that is judged before it is accepted. -/
def check (step : Step α) (verdict : α → Outcome β) : Step β :=
  .atomic (bind step fun value _ state => .ok (verdict value, state))

/-- The value of the step, or none where it fails recoverably. -/
def optional (step : Step α) : Step (Option α) := fun input state =>
  match step input state with
  | .error fault => .error fault
  | .ok (.ok value, reached) => .ok (.ok (some value), reached)
  | .ok (.recoverable _, reached) => .ok (.ok none, reached.moveTo state.position)
  | .ok (failed, reached) => passOn failed reached

/-- The successes of a step in a row, at most as many as allowed. -/
def repeated (step : Step α) : (allowed : Nat) → Step (List α)
  | 0 => fun _ _ => .error .exhausted
  | allowed + 1 => fun input state =>
    match step input state with
    | .error fault => .error fault
    | .ok (.ok item, reached) =>
      if reached.position = state.position then .ok (.ok [item], reached)
      else Step.mapOutcome (.map (item :: ·)) (repeated step allowed) input reached
    | .ok (.recoverable _, reached) => .ok (.ok [], reached.moveTo state.position)
    | .ok (failed, reached) => passOn failed reached

/-- The successes of a step in a row, up to a recoverable failure. -/
def many (step : Step α) : Step (List α) := fun input state =>
  repeated step (input.attempts state.position) input state

/-- At least one success of a step in a row. -/
def many1 (step : Step α) : Step (List α) :=
  .atomic (bind (many step) fun items => if items.isEmpty then .fail .expectedOneOrMore
    else .succeed items)

/-- The items of the lines in a column, at most as many as allowed. -/
def aligned (column : Nat) (locate : α → Location) (line : Step α) :
    (allowed : Nat) → Step (List α)
  | 0 => fun _ _ => .error .exhausted
  | allowed + 1 => fun input state =>
    if (state.current input).location.column? ≠ some column then .ok (.ok [], state)
    else
      match line input state with
      | .error fault => .error fault
      | .ok (.ok item, reached) =>
        if (locate item).isGenerated then
          .ok (.fatal ⟨locate item, .noColumn⟩, reached.moveTo state.position)
        else Step.mapOutcome (.map (item :: ·)) (aligned column locate line allowed) input reached
      | .ok (.recoverable _, reached) => .ok (.ok [], reached.moveTo state.position)
      | .ok (failed, reached) => passOn failed reached

/-- An item and the line ends behind it. -/
def line (item : Step α) : Step α :=
  .mapOutcome (.map Prod.fst) (seq item (many (.token .endOfLine)))

/-- A block of the lines that begin in the column of the first token behind any line ends. -/
def block (locate : α → Location) (item : Step α) : Step (List α) := fun input state =>
  let opening := state.position + input.lineEnds state.position
  let first := input.tokenAt opening
  if first.kind = .endOfInput then
    Step.failAt first (fun _ => .expectedBlock) input state
  else
    match first.location.column? with
    | none => .ok (.fatal ⟨first.location, .noColumn⟩, state)
    | some column =>
      if column ≤ state.indent then Step.failAt first (fun _ => .expectedBlock) input state
      else
        let inside := (state.moveTo opening).openBlock column
        match aligned column locate (line item) (input.attempts opening) input inside with
        | .error fault => .error fault
        | .ok (.ok [], reached) => .ok (.ok [], reached.closeBlock.moveTo state.position)
        | .ok (outcome, reached) => .ok (outcome, reached.closeBlock)

/-- The meaning of a parser, given the meaning of the rules. -/
def run (call : (rule : Rule) → Step rule.Result) : {α : Type} → Parser α → Step α
  | _, .succeed result => .succeed result
  | _, .fail problem => .fail problem
  | _, .here => .here
  | _, .token kind => .token kind
  | _, .value kind read => .value kind read
  | _, .endOfStatement => .endOfStatement
  | _, .rule name => call name
  | _, .sameLine inner => .sameLine (run call inner)
  | _, .inBlockColumn inner => .inBlockColumn (run call inner)
  | _, .onKind choices => .onKind fun kind => run call (choices kind)
  | _, .seq first second => seq (run call first) (run call second)
  | _, .map f inner => .mapOutcome (.map f) (run call inner)
  | _, .check verdict inner => check (run call inner) verdict
  | _, .commit inner => .mapOutcome .commit (run call inner)
  | _, .commitAs problem inner => .mapOutcome (.commitAs problem) (run call inner)
  | _, .optional inner => optional (run call inner)
  | _, .many inner => many (run call inner)
  | _, .many1 inner => many1 (run call inner)
  | _, .orElse first second => .orElse (run call first) (run call second)
  | _, .block locate item => block locate (run call item)
  | _, .nonEmpty what inner => .nonEmpty what (run call inner)

/-! ### Only failures are passed on -/

private theorem bind_eq (first : Step α) (next : α → Step β) : bind first next =
    .bind first next := by
  funext input state
  unfold bind Step.bind
  obtain fault | ⟨value | failure | failure, reached⟩ := first input state <;> rfl

private theorem seq_eq (first : Step α) (second : Step β) : seq first second =
    .seq first second := by
  simp only [seq, bind_eq]
  rfl

private theorem check_eq (step : Step α) (verdict : α → Outcome β) :
    check step verdict = .check step verdict := by
  simp only [check, bind_eq]
  rfl

private theorem optional_eq (step : Step α) : optional step = .optional step := by
  funext input state
  unfold optional Step.optional
  obtain fault | ⟨value | failure | failure, reached⟩ := step input state <;> rfl

private theorem repeated_eq (step : Step α) (allowed : Nat) :
    repeated step allowed = .repeated step allowed := by
  induction allowed with
  | zero => rfl
  | succ allowed ih =>
    funext input state
    unfold repeated Step.repeated
    rw [ih]
    obtain fault | ⟨item | failure | failure, reached⟩ := step input state <;> rfl

private theorem many_eq (step : Step α) : many step = .many step := by
  funext input state
  exact congrFun (congrFun (repeated_eq step _) input) state

private theorem many1_eq (step : Step α) : many1 step = .many1 step := by
  simp only [many1, bind_eq, many_eq]
  rfl

private theorem aligned_eq (column : Nat) (locate : α → Location) (line : Step α) (allowed : Nat) :
    aligned column locate line allowed = .aligned column locate line allowed := by
  induction allowed with
  | zero => rfl
  | succ allowed ih =>
    funext input state
    unfold aligned Step.aligned
    rw [ih]
    obtain fault | ⟨item | failure | failure, reached⟩ := line input state <;> rfl

private theorem block_eq (locate : α → Location) (item : Step α) :
    block locate item = .block locate item := by
  have hline : line item = .line item := by
    simp only [line, seq_eq, many_eq]
    rfl
  funext input state
  simp only [block, aligned_eq, hline]
  rfl

/-- Nothing that a parser passes on as a failure is a success. -/
theorem run_eq (call : (rule : Rule) → Step rule.Result) (parser : Parser α) :
    run call parser = parser.run call := by
  induction parser with
  | succeed | fail | here | token | value | endOfStatement | rule => rfl
  | sameLine _ ih => exact congrArg Step.sameLine ih
  | inBlockColumn _ ih => exact congrArg Step.inBlockColumn ih
  | onKind _ ih => exact congrArg Step.onKind (funext ih)
  | seq _ _ ih ih' => rw [run, ih, ih', seq_eq, Parser.run]
  | map f _ ih => rw [run, ih, Parser.run]
  | check verdict _ ih => rw [run, ih, check_eq, Parser.run]
  | commit _ ih => rw [run, ih, Parser.run]
  | commitAs problem _ ih => rw [run, ih, Parser.run]
  | optional _ ih => rw [run, ih, optional_eq, Parser.run]
  | many _ ih => rw [run, ih, many_eq, Parser.run]
  | many1 _ ih => rw [run, ih, many1_eq, Parser.run]
  | orElse _ _ ih ih' => rw [run, ih, ih', Parser.run]
  | block locate _ ih => rw [run, ih, block_eq, Parser.run]
  | nonEmpty what _ ih => rw [run, ih, Parser.run]

end Offside.Packrat.Strict
