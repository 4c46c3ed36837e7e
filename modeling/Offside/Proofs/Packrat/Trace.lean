import Offside.Proofs.Packrat.Frame

/-!
# Watching a run

A `Watch` runs as a step does and also shows each part of the run that is a parser of its own: the
state in which it is entered, and whether it is left with a success or with which failure. Nested
parts stand between their entry and their exit. It shows as well under which key the body of a rule
begins, so that a rule that is answered from memory can be told from one that runs. `Parser.watch`
watches a parser and all of its parts, and answers what `Parser.run` answers
(`Parser.watch_answers`).
-/

namespace Offside.Packrat

variable {α β : Type}

/-- What is seen of a part of a run. -/
inductive Event where
  /-- A parser begins in a state. -/
  | enter (state : State)
  /-- The body of a rule begins under a key. -/
  | body (key : Key)
  /-- The parser that began last and has not ended yet ends with an outcome, whatever its value. -/
  | leave (outcome : Outcome Unit)

/-- The key under which a body begins, if that is what is seen. -/
def Event.body? : Event → Option Key
  | .body key => some key
  | .enter _ | .leave _ => none

/-- What is seen of a run, in order, and what it answers. -/
structure Watched (α : Type) where
  events : List Event
  answer : Except Fault (Outcome α × State)

namespace Watched

/-- An answer without any part. -/
def silent (answer : Except Fault (Outcome α × State)) : Watched α := ⟨[], answer⟩

/-- The run goes on from the outcome and the state that were reached; a fault ends it. -/
def resume (first : Watched α) (next : Outcome α → State → Watched β) : Watched β :=
  match first.answer with
  | .error fault => ⟨first.events, .error fault⟩
  | .ok (outcome, reached) =>
    ⟨first.events ++ (next outcome reached).events, (next outcome reached).answer⟩

/-- The run as one part of another, begun in a state. -/
def asPart (state : State) (run : Watched α) : Watched α :=
  match run.answer with
  | .error fault => ⟨.enter state :: run.events, .error fault⟩
  | .ok (outcome, reached) =>
    ⟨.enter state :: (run.events ++ [.leave (outcome.map fun _ ↦ ())]), .ok (outcome, reached)⟩

/-- The run as that of the body of a rule under a key. -/
def asBody (key : Key) (run : Watched α) : Watched α := ⟨.body key :: run.events, run.answer⟩

/-- The keys of the bodies that ran, in the order in which they began. -/
def bodies (run : Watched α) : List Key := run.events.filterMap Event.body?

/-- A run that goes on answers what the later run does, or the fault of the first. -/
theorem answer_resume (first : Watched α) (next : Outcome α → State → Watched β) :
    (first.resume next).answer =
      match first.answer with
      | .error fault => .error fault
      | .ok (outcome, reached) => (next outcome reached).answer := by
  unfold resume
  split <;> rfl

/-- What is seen of a run that goes on is what is seen of the first run and then of the later one.
-/
theorem events_resume (first : Watched α) (next : Outcome α → State → Watched β) :
    (first.resume next).events = first.events ++
      match first.answer with
      | .error _ => []
      | .ok (outcome, reached) => (next outcome reached).events := by
  unfold resume
  split <;> simp [*]

/-- A part answers what its run does. -/
@[simp] theorem answer_asPart (state : State) (run : Watched α) :
    (run.asPart state).answer = run.answer := by
  unfold asPart
  split <;> simp [*]

end Watched

/-- A step that is watched. -/
abbrev Watch (α : Type) : Type := Input → State → Watched α

namespace Watch

open Watched

/-- A step without parts. -/
def plain (step : Step α) : Watch α := fun input state => silent (step input state)

/-- The watch as one part of another. -/
def part (watch : Watch α) : Watch α := fun input state => (watch input state).asPart state

/-- The second watch on the value of the first. -/
def bind (first : Watch α) (next : α → Watch β) : Watch β := fun input state =>
  (first input state).resume fun
    | .ok value, reached => next value input reached
    | .recoverable failure, reached => silent (.ok (.recoverable failure, reached))
    | .fatal failure, reached => silent (.ok (.fatal failure, reached))

/-- Changes the outcome, but not the state. -/
def mapOutcome (f : Outcome α → Outcome β) (watch : Watch α) : Watch β := fun input state =>
  (watch input state).resume fun outcome reached => silent (.ok (f outcome, reached))

/-- Failures leave the position where the watch began. -/
def atomic (watch : Watch α) : Watch α := fun input state =>
  (watch input state).resume fun
    | .ok value, reached => silent (.ok (.ok value, reached))
    | failed, reached => silent (.ok (failed, reached.moveTo state.position))

/-- The watch, unless a line has just ended. -/
def sameLine (watch : Watch α) : Watch α := fun input state =>
  if state.isBehindLineEnd input then plain (.fail .expectedSameLine) input state
  else watch input state

/-- The watch, if the next token stands in the column of the innermost block. -/
def inBlockColumn (watch : Watch α) : Watch α := fun input state =>
  if (state.current input).location.column? = some state.indent then watch input state
  else plain (.fail fun _ => .expectedElse state.indent) input state

/-- The watch chosen by the kind of the next token. -/
def onKind (watches : TokenKind → Watch α) : Watch α := fun input state =>
  watches (state.current input).kind input state

/-- Both watches in order. -/
def seq (first : Watch α) (second : Watch β) : Watch (α × β) :=
  atomic (bind first fun a => bind second fun b => plain (.succeed (a, b)))

/-- A value that is judged before it is accepted. -/
def check (watch : Watch α) (verdict : α → Outcome β) : Watch β :=
  atomic (bind watch fun value _ state => silent (.ok (verdict value, state)))

/-- The value of the watch, or none where it fails recoverably. -/
def optional (watch : Watch α) : Watch (Option α) := fun input state =>
  (watch input state).resume fun
    | .ok value, reached => silent (.ok (.ok (some value), reached))
    | .recoverable _, reached => silent (.ok (.ok none, reached.moveTo state.position))
    | .fatal failure, reached => silent (.ok (.fatal failure, reached))

/-- The first watch or, where it fails recoverably, the second. -/
def orElse (first second : Watch α) : Watch α := fun input state =>
  (first input state).resume fun
    | .recoverable _, reached => second input (reached.moveTo state.position)
    | decided, reached => silent (.ok (decided, reached))

/-- The successes of a watch in a row. -/
def repeated (watch : Watch α) : (allowed : Nat) → Watch (List α)
  | 0 => plain fun _ _ => .error .exhausted
  | allowed + 1 => fun input state =>
    (watch input state).resume fun
      | .recoverable _, reached => silent (.ok (.ok [], reached.moveTo state.position))
      | .fatal failure, reached => silent (.ok (.fatal failure, reached))
      | .ok item, reached =>
        if reached.position = state.position then silent (.ok (.ok [item], reached))
        else mapOutcome (.map (item :: ·)) (repeated watch allowed) input reached

/-- The successes of a watch in a row, up to a recoverable failure. -/
def many (watch : Watch α) : Watch (List α) := fun input state =>
  repeated watch (input.attempts state.position) input state

/-- At least one success of a watch in a row, of which the row is a part. -/
def many1 (watch : Watch α) : Watch (List α) :=
  atomic (bind (part (many watch)) fun items =>
    if items.isEmpty then plain (.fail .expectedOneOrMore) else plain (.succeed items))

/-- The items of a watch, of which there must be one. -/
def nonEmpty (what : String) (watch : Watch (List α)) : Watch (List α) :=
  bind watch fun items input state =>
    if items.isEmpty then
      plain (.failAt (input.tokenAt (state.position + input.lineEnds state.position))
        (.expectedNamed what)) input state
    else plain (.succeed items) input state

/-- The items of the lines in a column. -/
def aligned (column : Nat) (locate : α → Location) (line : Watch α) :
    (allowed : Nat) → Watch (List α)
  | 0 => plain fun _ _ => .error .exhausted
  | allowed + 1 => fun input state =>
    if (state.current input).location.column? ≠ some column then silent (.ok (.ok [], state))
    else
      (line input state).resume fun
        | .recoverable _, reached => silent (.ok (.ok [], reached.moveTo state.position))
        | .fatal failure, reached => silent (.ok (.fatal failure, reached))
        | .ok item, reached =>
          if (locate item).isGenerated then
            silent (.ok (.fatal ⟨locate item, .noColumn⟩, reached.moveTo state.position))
          else mapOutcome (.map (item :: ·)) (aligned column locate line allowed) input reached

/-- An item and the line ends behind it, each of them a part. -/
def line (item : Watch α) : Watch α :=
  part (mapOutcome (.map Prod.fst)
    (part (seq item (part (many (part (plain (.token .endOfLine))))))))

/-- A block, of which the lines are parts. -/
def block (locate : α → Location) (item : Watch α) : Watch (List α) := fun input state =>
  let opening := state.position + input.lineEnds state.position
  let first := input.tokenAt opening
  if first.kind = .endOfInput then
    plain (.failAt first fun _ => .expectedBlock) input state
  else
    match first.location.column? with
    | none => silent (.ok (.fatal ⟨first.location, .noColumn⟩, state))
    | some column =>
      if column ≤ state.indent then plain (.failAt first fun _ => .expectedBlock) input state
      else
        let inside := (state.moveTo opening).openBlock column
        (aligned column locate (line item) (input.attempts opening) input inside).resume fun
          | .ok [], reached => silent (.ok (.ok [], reached.closeBlock.moveTo state.position))
          | outcome, reached => silent (.ok (outcome, reached.closeBlock))

/-- The remembered result of a rule or, where none is remembered, the result of the watch, which
sees the body of the rule. -/
def remembered (rule : Rule) (watch : Watch rule.Result) : Watch rule.Result := fun input state =>
  let key : Key := ⟨rule, state.position, state.indent⟩
  if input.memoize then
    match state.table.lookup key rule.family with
    | .error fault => silent (.error fault)
    | .ok (some (outcome, stop), table) =>
      silent (.ok (outcome, { state with table, position := stop }))
    | .ok (none, table) =>
      ((watch input { state with table }).asBody key).resume fun outcome reached =>
        silent (.ok
          (outcome, { reached with table := reached.table.store key outcome reached.position }))
  else (watch input state).asBody key

end Watch

/-- Watches a parser and its parts, given how the rules are watched. -/
def Parser.watch (call : (rule : Rule) → Watch rule.Result) : {α : Type} → Parser α → Watch α
  | _, succeed result => .part (.plain (.succeed result))
  | _, fail problem => .part (.plain (.fail problem))
  | _, here => .part (.plain .here)
  | _, token kind => .part (.plain (.token kind))
  | _, value kind read => .part (.plain (.value kind read))
  | _, endOfStatement => .part (.plain .endOfStatement)
  | _, rule name => .part (call name)
  | _, sameLine inner => .part (.sameLine (inner.watch call))
  | _, inBlockColumn inner => .part (.inBlockColumn (inner.watch call))
  | _, onKind choices => .part (.onKind fun kind => (choices kind).watch call)
  | _, seq first second => .part (.seq (first.watch call) (second.watch call))
  | _, map f inner => .part (.mapOutcome (.map f) (inner.watch call))
  | _, check verdict inner => .part (.check (inner.watch call) verdict)
  | _, commit inner => .part (.mapOutcome .commit (inner.watch call))
  | _, commitAs problem inner => .part (.mapOutcome (.commitAs problem) (inner.watch call))
  | _, optional inner => .part (.optional (inner.watch call))
  | _, many inner => .part (.many (inner.watch call))
  | _, many1 inner => .part (.many1 (inner.watch call))
  | _, orElse first second => .part (.orElse (first.watch call) (second.watch call))
  | _, block locate item => .part (.block locate (item.watch call))
  | _, nonEmpty what inner => .part (.nonEmpty what (inner.watch call))

/-! ### A watched run is the run -/

namespace Watch

open Watched

/-- The watch answers what the step answers. -/
def Answers (watch : Watch α) (step : Step α) : Prop :=
  ∀ input s, (watch input s).answer = step input s

variable {a : Watch α} {b : Watch β} {x : Step α} {y : Step β}

/-- A step without parts is watched as it is. -/
theorem answers_plain (step : Step α) : (plain step).Answers step := fun _ _ ↦ rfl

private theorem answers_part (h : a.Answers x) : (part a).Answers x := by
  intro input s
  rw [part, answer_asPart, h input s]

private theorem answers_bind {next : α → Watch β} {next' : α → Step β} (h : a.Answers x)
    (hnext : ∀ found, (next found).Answers (next' found)) :
    (bind a next).Answers (.bind x next') := by
  intro input s
  unfold bind Step.bind
  rw [answer_resume, h input s]
  rcases x input s with fault | ⟨found | failure | failure, m⟩
  · rfl
  · exact hnext found input m
  · rfl
  · rfl

private theorem answers_mapOutcome (f : Outcome α → Outcome β) (h : a.Answers x) :
    (mapOutcome f a).Answers (.mapOutcome f x) := by
  intro input s
  unfold mapOutcome Step.mapOutcome
  rw [answer_resume, h input s]
  rcases x input s with fault | ⟨outcome, m⟩ <;> rfl

private theorem answers_atomic (h : a.Answers x) : (atomic a).Answers (.atomic x) := by
  intro input s
  unfold atomic Step.atomic
  rw [answer_resume, h input s]
  rcases x input s with fault | ⟨found | failure | failure, m⟩ <;> rfl

private theorem answers_sameLine (h : a.Answers x) : (sameLine a).Answers (.sameLine x) := by
  intro input s
  unfold sameLine Step.sameLine
  split
  · rfl
  · exact h input s

private theorem answers_inBlockColumn (h : a.Answers x) :
    (inBlockColumn a).Answers (.inBlockColumn x) := by
  intro input s
  unfold inBlockColumn Step.inBlockColumn
  split
  · exact h input s
  · rfl

private theorem answers_onKind {watches : TokenKind → Watch α} {steps : TokenKind → Step α}
    (h : ∀ kind, (watches kind).Answers (steps kind)) : (onKind watches).Answers (.onKind steps) :=
  fun input s ↦ h _ input s

private theorem answers_seq (h : a.Answers x) (h' : b.Answers y) : (seq a b).Answers (.seq x y) :=
  answers_atomic (answers_bind h fun _ ↦ answers_bind h' fun _ ↦ answers_plain _)

private theorem answers_check (verdict : α → Outcome β) (h : a.Answers x) :
    (check a verdict).Answers (.check x verdict) :=
  answers_atomic (answers_bind h fun _ _ _ ↦ rfl)

private theorem answers_optional (h : a.Answers x) : (optional a).Answers (.optional x) := by
  intro input s
  unfold optional Step.optional
  rw [answer_resume, h input s]
  rcases x input s with fault | ⟨found | failure | failure, m⟩ <;> rfl

private theorem answers_orElse {b : Watch α} {y : Step α} (h : a.Answers x) (h' : b.Answers y) :
    (orElse a b).Answers (.orElse x y) := by
  intro input s
  unfold orElse Step.orElse
  rw [answer_resume, h input s]
  rcases x input s with fault | ⟨found | failure | failure, m⟩
  · rfl
  · rfl
  · exact h' input _
  · rfl

private theorem answers_repeated (h : a.Answers x) (allowed : Nat) :
    (repeated a allowed).Answers (.repeated x allowed) := by
  induction allowed with
  | zero => exact answers_plain _
  | succ allowed ih =>
    intro input s
    unfold repeated Step.repeated
    rw [answer_resume, h input s]
    rcases x input s with fault | ⟨found | failure | failure, m⟩
    · rfl
    · dsimp only
      split
      · rfl
      · exact answers_mapOutcome _ ih input m
    · rfl
    · rfl

private theorem answers_many (h : a.Answers x) : (many a).Answers (.many x) :=
  fun input s ↦ answers_repeated h _ input s

private theorem answers_many1 (h : a.Answers x) : (many1 a).Answers (.many1 x) := by
  refine answers_atomic (answers_bind (answers_part (answers_many h)) fun items ↦ ?_)
  split <;> exact answers_plain _

private theorem answers_nonEmpty (what : String) {a : Watch (List α)} {x : Step (List α)}
    (h : a.Answers x) : (nonEmpty what a).Answers (.nonEmpty what x) := by
  refine answers_bind h fun items input s ↦ ?_
  split <;> rfl

private theorem answers_line (h : a.Answers x) : (line a).Answers (.line x) :=
  answers_part (answers_mapOutcome _ (answers_part (answers_seq h (answers_part (answers_many
    (answers_part (answers_plain _)))))))

private theorem answers_aligned (column : Nat) (locate : α → Location) (h : a.Answers x)
    (allowed : Nat) : (aligned column locate a allowed).Answers
      (.aligned column locate x allowed) := by
  induction allowed with
  | zero => exact answers_plain _
  | succ allowed ih =>
    intro input s
    unfold aligned Step.aligned
    split
    · rfl
    · rw [answer_resume, h input s]
      rcases x input s with fault | ⟨found | failure | failure, m⟩
      · rfl
      · dsimp only
        split
        · rfl
        · exact answers_mapOutcome _ ih input m
      · rfl
      · rfl

private theorem answers_block (locate : α → Location) (h : a.Answers x) :
    (block locate a).Answers (.block locate x) := by
  intro input s
  unfold block Step.block
  dsimp only
  split
  · rfl
  · cases (input.tokenAt (s.position + input.lineEnds s.position)).location.column? with
    | none => rfl
    | some column =>
      dsimp only
      split
      · rfl
      · rw [answer_resume, answers_aligned column locate (answers_line h)]
        generalize Step.aligned column locate (.line x) _ _ _ = lines
        rcases lines with fault | ⟨⟨_ | ⟨item, items⟩⟩ | failure | failure, m⟩ <;> rfl

/-- A watched rule is remembered as the rule is. -/
theorem answers_remembered (rule : Rule) {a : Watch rule.Result} {x : Step rule.Result}
    (h : a.Answers x) : (remembered rule a).Answers (.remembered rule x) := by
  intro input s
  unfold remembered Step.remembered asBody
  dsimp only
  split
  · generalize s.table.lookup _ _ = answer
    rcases answer with fault | ⟨_ | ⟨outcome, stop⟩, table⟩
    · rfl
    · dsimp only
      rw [answer_resume, h input]
      rcases x input _ with fault | ⟨outcome, m⟩ <;> rfl
    · rfl
  · exact h input s

end Watch

/-- A watched parser answers what the parser answers, if this is so for the rules. -/
theorem Parser.watch_answers {watchCall : (rule : Rule) → Watch rule.Result}
    {call : (rule : Rule) → Step rule.Result} (h : ∀ rule, (watchCall rule).Answers (call rule))
    (parser : Parser α) : (parser.watch watchCall).Answers (parser.run call) := by
  induction parser with
  | succeed | fail | here | token | value | endOfStatement =>
    exact Watch.answers_part (Watch.answers_plain _)
  | rule rule => exact Watch.answers_part (h rule)
  | sameLine _ ih => exact Watch.answers_part (Watch.answers_sameLine ih)
  | inBlockColumn _ ih => exact Watch.answers_part (Watch.answers_inBlockColumn ih)
  | onKind _ ih => exact Watch.answers_part (Watch.answers_onKind ih)
  | seq _ _ ih ih' => exact Watch.answers_part (Watch.answers_seq ih ih')
  | map f _ ih => exact Watch.answers_part (Watch.answers_mapOutcome (.map f) ih)
  | check verdict _ ih => exact Watch.answers_part (Watch.answers_check verdict ih)
  | commit _ ih => exact Watch.answers_part (Watch.answers_mapOutcome .commit ih)
  | commitAs problem _ ih =>
    exact Watch.answers_part (Watch.answers_mapOutcome (.commitAs problem) ih)
  | optional _ ih => exact Watch.answers_part (Watch.answers_optional ih)
  | many _ ih => exact Watch.answers_part (Watch.answers_many ih)
  | many1 _ ih => exact Watch.answers_part (Watch.answers_many1 ih)
  | orElse _ _ ih ih' => exact Watch.answers_part (Watch.answers_orElse ih ih')
  | block locate _ ih => exact Watch.answers_part (Watch.answers_block locate ih)
  | nonEmpty what _ ih => exact Watch.answers_part (Watch.answers_nonEmpty what ih)

end Offside.Packrat
