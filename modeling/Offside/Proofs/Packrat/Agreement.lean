import Offside.Packrat.Parser

/-!
# Steps that agree

Two steps agree if they answer the same wherever they start at one position and one indent. The
first of them remembers nothing and may run out of its bound on nested rules; the second may
remember, as long as its table keeps an invariant. Neither touches the columns of the open blocks,
and all ways to combine parsers keep agreement (`Parser.run_agrees`).
-/

namespace Offside.Packrat

variable {α β : Type} {tokens : Array Token} {memoize : Bool} {Keeps : Table → Prop}

/-- The answers of two steps that start at `s` and at `t` agree: the same fault, or the same outcome
and the same position with the open blocks as they were. Running out of the bound agrees with
anything. -/
inductive Agree (Keeps : Table → Prop) (s t : State) :
    Except Fault (Outcome α × State) → Except Fault (Outcome α × State) → Prop where
  | exhausted (answer : Except Fault (Outcome α × State)) :
      Agree Keeps s t (.error .exhausted) answer
  | fault (fault : Fault) : Agree Keeps s t (.error fault) (.error fault)
  | answer (outcome : Outcome α) (position : Nat) (table : Table) (keeps : Keeps table) :
      Agree Keeps s t (.ok (outcome, s.moveTo position)) (.ok (outcome, { t with position, table }))

/-- The states have one position and one indent, and the table of the second keeps the
invariant. -/
structure Alike (Keeps : Table → Prop) (s t : State) : Prop where
  position : s.position = t.position
  indent : s.indent = t.indent
  keeps : Keeps t.table

/-- The first step without memory and the second step agree from all states that are alike. -/
def Step.Agrees (tokens : Array Token) (memoize : Bool) (Keeps : Table → Prop)
    (a b : Step α) : Prop :=
  ∀ s t : State, Alike Keeps s t → Agree Keeps s t (a ⟨tokens, false⟩ s) (b ⟨tokens, memoize⟩ t)

/-- States that are alike stay so when both move to one position. -/
theorem Alike.moved {s t : State} (h : Alike Keeps s t) (position : Nat) {table : Table}
    (keeps : Keeps table) : Alike Keeps (s.moveTo position) { t with position, table } :=
  ⟨rfl, h.indent, keeps⟩

/-- States that are alike stay so when both open a block of one column. -/
theorem Alike.opened {s t : State} (h : Alike Keeps s t) (column : Nat) :
    Alike Keeps (s.openBlock column) (t.openBlock column) :=
  ⟨h.position, rfl, h.keeps⟩

/-- Both steps may answer without moving. -/
theorem Agree.stay {s t : State} (h : Alike Keeps s t) (outcome : Outcome α) :
    Agree Keeps s t (.ok (outcome, s)) (.ok (outcome, t)) := by
  obtain ⟨position, blocks, table⟩ := s
  obtain ⟨_, _, kept⟩ := t
  obtain ⟨rfl, _, keeps⟩ := h
  exact .answer outcome position kept keeps

/-- Agreement from later positions is agreement from where both began. -/
theorem Agree.rebase {s t : State} {position : Nat} {table : Table}
    {x y : Except Fault (Outcome α × State)}
    (h : Agree Keeps (s.moveTo position) { t with position, table } x y) : Agree Keeps s t x y := by
  cases h with
  | exhausted => exact .exhausted _
  | fault fault => exact .fault fault
  | answer outcome position table keeps => exact .answer outcome position table keeps

namespace Step

private theorem agrees_succeed (value : α) :
    Agrees tokens memoize Keeps (succeed value) (succeed value) :=
  fun _ _ h ↦ .stay h _

private theorem agrees_failAt (token : Token) (problem : Terminal → Problem) :
    Agrees tokens memoize Keeps (failAt (α := α) token problem) (failAt token problem) :=
  fun _ _ h ↦ .stay h _

private theorem current_eq (tokens : Array Token) (memoize : Bool) {s t : State}
    (h : s.position = t.position) :
    s.current ⟨tokens, false⟩ = t.current ⟨tokens, memoize⟩ := by
  simp only [State.current, h]
  rfl

-- What is read of the tokens does not depend on whether results are remembered.
private theorem tokenAt_eq (tokens : Array Token) (memoize : Bool) (position : Nat) :
    Input.tokenAt ⟨tokens, false⟩ position = Input.tokenAt ⟨tokens, memoize⟩ position := rfl

private theorem lineEnds_eq (tokens : Array Token) (memoize : Bool) (position : Nat) :
    Input.lineEnds ⟨tokens, false⟩ position = Input.lineEnds ⟨tokens, memoize⟩ position := rfl

private theorem attempts_eq (tokens : Array Token) (memoize : Bool) (position : Nat) :
    Input.attempts ⟨tokens, false⟩ position = Input.attempts ⟨tokens, memoize⟩ position := rfl

private theorem isBehindLineEnd_eq (tokens : Array Token) (memoize : Bool) {s t : State}
    (h : s.position = t.position) :
    s.isBehindLineEnd ⟨tokens, false⟩ = t.isBehindLineEnd ⟨tokens, memoize⟩ := by
  simp only [State.isBehindLineEnd, State.previous?, h]

private theorem agrees_fail (problem : Terminal → Problem) :
    Agrees (α := α) tokens memoize Keeps (fail problem) (fail problem) := by
  intro s t h
  unfold fail
  rw [current_eq tokens memoize h.position]
  exact .stay h _

private theorem agrees_here : Agrees tokens memoize Keeps here here := by
  intro s t h
  unfold here
  rw [current_eq tokens memoize h.position]
  exact .stay h _

private theorem agree_advance {s t : State} (h : Alike Keeps s t) (outcome : Outcome α) :
    Agree Keeps s t (.ok (outcome, s.advance ⟨tokens, false⟩))
      (.ok (outcome, t.advance ⟨tokens, memoize⟩)) := by
  unfold State.advance
  rw [h.position]
  split
  · exact .answer outcome (t.position + 1) t.table h.keeps
  · exact .stay h outcome

/-- A token is read alike, whatever is remembered. -/
theorem agrees_token (kind : TokenKind) :
    Agrees tokens memoize Keeps (token kind) (token kind) := by
  intro s t h
  simp only [token, current_eq tokens memoize h.position]
  split
  · exact agree_advance h _
  · exact agrees_fail _ s t h

private theorem agrees_value (kind : TokenKind) (read : Payload → Option α) :
    Agrees tokens memoize Keeps (value kind read) (value kind read) := by
  intro s t h
  have ht : Agree Keeps s t (token kind ⟨tokens, false⟩ s) (token kind ⟨tokens, memoize⟩ t) :=
    agrees_token kind s t h
  unfold value
  revert ht
  generalize token kind ⟨tokens, false⟩ s = x, token kind ⟨tokens, memoize⟩ t = y
  rintro (_ | fault | ⟨found | failure | failure, position, table, keeps⟩)
  · exact .exhausted _
  · exact .fault fault
  · dsimp only
    cases read found.payload with
    | some value => exact .answer _ position table keeps
    | none => exact .fault _
  · exact .answer _ position table keeps
  · exact .answer _ position table keeps

private theorem agrees_endOfStatement :
    Agrees tokens memoize Keeps endOfStatement endOfStatement := by
  intro s t h
  unfold endOfStatement
  rw [current_eq tokens memoize h.position, isBehindLineEnd_eq tokens memoize h.position]
  split
  · exact agree_advance h _
  · split
    · exact .stay h _
    · exact agrees_fail _ s t h

section Composed

variable {a b : Step α} {c d : Step β}

private theorem agrees_bind {next next' : α → Step β} (h : Agrees tokens memoize Keeps a b)
    (hnext : ∀ value, Agrees tokens memoize Keeps (next value) (next' value)) :
    Agrees tokens memoize Keeps (bind a next) (bind b next') := by
  intro s t like
  have hx := h s t like
  unfold bind
  revert hx
  generalize a ⟨tokens, false⟩ s = x, b ⟨tokens, memoize⟩ t = y
  rintro (_ | fault | ⟨value | failure | failure, position, table, keeps⟩)
  · exact .exhausted _
  · exact .fault fault
  · exact .rebase (hnext value _ _ (like.moved position keeps))
  · exact .answer _ position table keeps
  · exact .answer _ position table keeps

private theorem agrees_mapOutcome (f : Outcome α → Outcome β)
    (h : Agrees tokens memoize Keeps a b) :
    Agrees tokens memoize Keeps (mapOutcome f a) (mapOutcome f b) := by
  intro s t like
  have hx := h s t like
  unfold mapOutcome
  revert hx
  generalize a ⟨tokens, false⟩ s = x, b ⟨tokens, memoize⟩ t = y
  rintro (_ | fault | ⟨outcome, position, table, keeps⟩)
  · exact .exhausted _
  · exact .fault fault
  · exact .answer _ position table keeps

private theorem answer_moveTo {s t : State} (h : s.position = t.position) (outcome : Outcome α)
    (position : Nat) {table : Table} (keeps : Keeps table) :
    Agree Keeps s t (.ok (outcome, (s.moveTo position).moveTo s.position))
      (.ok (outcome, State.moveTo { t with position, table } t.position)) := by
  rw [h]
  exact .answer outcome t.position table keeps

private theorem agrees_atomic (h : Agrees tokens memoize Keeps a b) :
    Agrees tokens memoize Keeps (atomic a) (atomic b) := by
  intro s t like
  have hx := h s t like
  unfold atomic
  revert hx
  generalize a ⟨tokens, false⟩ s = x, b ⟨tokens, memoize⟩ t = y
  rintro (_ | fault | ⟨value | failure | failure, position, table, keeps⟩)
  · exact .exhausted _
  · exact .fault fault
  · exact .answer _ position table keeps
  · exact answer_moveTo like.position _ position keeps
  · exact answer_moveTo like.position _ position keeps

private theorem agrees_seq (h : Agrees tokens memoize Keeps a b)
    (h' : Agrees tokens memoize Keeps c d) :
    Agrees tokens memoize Keeps (seq a c) (seq b d) :=
  agrees_atomic (agrees_bind h fun _ ↦ agrees_bind h' fun _ ↦ agrees_succeed _)

private theorem agrees_check (verdict : α → Outcome β) (h : Agrees tokens memoize Keeps a b) :
    Agrees tokens memoize Keeps (check a verdict) (check b verdict) :=
  agrees_atomic (agrees_bind h fun _ _ _ like ↦ .stay like _)

private theorem agrees_sameLine (h : Agrees tokens memoize Keeps a b) :
    Agrees tokens memoize Keeps (sameLine a) (sameLine b) := by
  intro s t like
  unfold sameLine
  rw [isBehindLineEnd_eq tokens memoize like.position]
  split
  · exact agrees_fail _ s t like
  · exact h s t like

private theorem agrees_inBlockColumn (h : Agrees tokens memoize Keeps a b) :
    Agrees tokens memoize Keeps (inBlockColumn a) (inBlockColumn b) := by
  intro s t like
  unfold inBlockColumn
  rw [current_eq tokens memoize like.position, like.indent]
  split
  · exact h s t like
  · exact agrees_fail _ s t like

private theorem agrees_onKind {steps steps' : TokenKind → Step α}
    (h : ∀ kind, Agrees tokens memoize Keeps (steps kind) (steps' kind)) :
    Agrees tokens memoize Keeps (onKind steps) (onKind steps') := by
  intro s t like
  unfold onKind
  rw [current_eq tokens memoize like.position]
  exact h _ s t like

private theorem agrees_optional (h : Agrees tokens memoize Keeps a b) :
    Agrees tokens memoize Keeps (optional a) (optional b) := by
  intro s t like
  have hx := h s t like
  unfold optional
  revert hx
  generalize a ⟨tokens, false⟩ s = x, b ⟨tokens, memoize⟩ t = y
  rintro (_ | fault | ⟨value | failure | failure, position, table, keeps⟩)
  · exact .exhausted _
  · exact .fault fault
  · exact .answer _ position table keeps
  · exact answer_moveTo like.position _ position keeps
  · exact .answer _ position table keeps

private theorem agrees_orElse {a' b' : Step α} (h : Agrees tokens memoize Keeps a b)
    (h' : Agrees tokens memoize Keeps a' b') :
    Agrees tokens memoize Keeps (orElse a a') (orElse b b') := by
  intro s t like
  have hx := h s t like
  unfold orElse
  revert hx
  generalize a ⟨tokens, false⟩ s = x, b ⟨tokens, memoize⟩ t = y
  rintro (_ | fault | ⟨value | failure | failure, position, table, keeps⟩)
  · exact .exhausted _
  · exact .fault fault
  · exact .answer _ position table keeps
  · simp only [like.position]
    exact .rebase (h' _ _ (like.moved t.position keeps))
  · exact .answer _ position table keeps

private theorem agrees_repeated (h : Agrees tokens memoize Keeps a b) (allowed : Nat) :
    Agrees tokens memoize Keeps (repeated a allowed) (repeated b allowed) := by
  induction allowed with
  | zero => exact fun _ _ _ ↦ .exhausted _
  | succ allowed ih =>
    intro s t like
    have hx := h s t like
    unfold repeated
    revert hx
    generalize a ⟨tokens, false⟩ s = x, b ⟨tokens, memoize⟩ t = y
    rintro (_ | fault | ⟨value | failure | failure, position, table, keeps⟩)
    · exact .exhausted _
    · exact .fault fault
    · simp only [State.position_moveTo, like.position]
      split
      · exact .answer _ position table keeps
      · exact .rebase (agrees_mapOutcome _ ih _ _ (like.moved position keeps))
    · exact answer_moveTo like.position _ position keeps
    · exact .answer _ position table keeps

private theorem agrees_many (h : Agrees tokens memoize Keeps a b) :
    Agrees tokens memoize Keeps (many a) (many b) := by
  intro s t like
  unfold many
  rw [like.position]
  exact agrees_repeated h _ s t like

private theorem agrees_many1 (h : Agrees tokens memoize Keeps a b) :
    Agrees tokens memoize Keeps (many1 a) (many1 b) := by
  refine agrees_atomic (agrees_bind (agrees_many h) fun items ↦ ?_)
  split
  · exact agrees_fail _
  · exact agrees_succeed _

private theorem agrees_nonEmpty (what : String) {a b : Step (List α)}
    (h : Agrees tokens memoize Keeps a b) :
    Agrees tokens memoize Keeps (nonEmpty what a) (nonEmpty what b) := by
  refine agrees_bind h fun items s t like ↦ ?_
  rw [like.position]
  split
  · exact agrees_failAt _ _ s t like
  · exact agrees_succeed _ s t like

/-- A line agrees if its item does. -/
theorem agrees_line (h : Agrees tokens memoize Keeps a b) :
    Agrees tokens memoize Keeps (line a) (line b) :=
  agrees_mapOutcome _ (agrees_seq h (agrees_many (agrees_token _)))

private theorem agrees_aligned (column : Nat) (locate : α → Location)
    (h : Agrees tokens memoize Keeps a b) (allowed : Nat) :
    Agrees tokens memoize Keeps (aligned column locate a allowed)
      (aligned column locate b allowed) := by
  induction allowed with
  | zero => exact fun _ _ _ ↦ .exhausted _
  | succ allowed ih =>
    intro s t like
    have hx := h s t like
    unfold aligned
    rw [current_eq tokens memoize like.position]
    split
    · exact .stay like _
    · revert hx
      generalize a ⟨tokens, false⟩ s = x, b ⟨tokens, memoize⟩ t = y
      rintro (_ | fault | ⟨item | failure | failure, position, table, keeps⟩)
      · exact .exhausted _
      · exact .fault fault
      · dsimp only
        split
        · exact answer_moveTo like.position _ position keeps
        · exact .rebase (agrees_mapOutcome _ ih _ _ (like.moved position keeps))
      · exact answer_moveTo like.position _ position keeps
      · exact .answer _ position table keeps

private theorem agrees_block (locate : α → Location) (h : Agrees tokens memoize Keeps a b) :
    Agrees tokens memoize Keeps (block locate a) (block locate b) := by
  intro s t like
  simp only [block, like.position, like.indent, tokenAt_eq tokens memoize,
    lineEnds_eq tokens memoize, attempts_eq tokens memoize]
  generalize t.position + Input.lineEnds ⟨tokens, memoize⟩ t.position = opening
  split
  · exact .stay like _
  · split
    · exact .stay like _
    · next column _ =>
      split
      · exact .stay like _
      · have hx := agrees_aligned column locate (agrees_line h)
          (Input.attempts ⟨tokens, memoize⟩ opening) _ _
          ((like.moved opening like.keeps).opened column)
        revert hx
        change Agree Keeps _ _ _ (aligned _ _ _ _ _ (State.openBlock (t.moveTo opening) column)) → _
        generalize aligned column locate (line a) _ _ _ = x,
          aligned column locate (line b) _ _ _ = y
        rintro (_ | fault | ⟨⟨_ | ⟨item, items⟩⟩ | failure | failure, position, table, keeps⟩)
        · exact .exhausted _
        · exact .fault fault
        · exact .answer _ t.position table keeps
        · exact .answer _ position table keeps
        · exact .answer _ position table keeps
        · exact .answer _ position table keeps

end Composed

end Step

/-- Agreement about every rule is agreement about every parser. -/
theorem Parser.run_agrees {call call' : (rule : Rule) → Step rule.Result}
    (h : ∀ rule, Step.Agrees tokens memoize Keeps (call rule) (call' rule)) (parser : Parser α) :
    Step.Agrees tokens memoize Keeps (parser.run call) (parser.run call') := by
  induction parser with
  | succeed value => exact Step.agrees_succeed value
  | fail problem => exact Step.agrees_fail problem
  | here => exact Step.agrees_here
  | token kind => exact Step.agrees_token kind
  | value kind read => exact Step.agrees_value kind read
  | endOfStatement => exact Step.agrees_endOfStatement
  | rule rule => exact h rule
  | sameLine _ ih => exact Step.agrees_sameLine ih
  | inBlockColumn _ ih => exact Step.agrees_inBlockColumn ih
  | onKind _ ih => exact Step.agrees_onKind ih
  | seq _ _ ih ih' => exact Step.agrees_seq ih ih'
  | map f _ ih => exact Step.agrees_mapOutcome (.map f) ih
  | check verdict _ ih => exact Step.agrees_check verdict ih
  | commit _ ih => exact Step.agrees_mapOutcome .commit ih
  | commitAs problem _ ih => exact Step.agrees_mapOutcome (.commitAs problem) ih
  | optional _ ih => exact Step.agrees_optional ih
  | many _ ih => exact Step.agrees_many ih
  | many1 _ ih => exact Step.agrees_many1 ih
  | orElse _ _ ih ih' => exact Step.agrees_orElse ih ih'
  | block locate _ ih => exact Step.agrees_block locate ih
  | nonEmpty what _ ih => exact Step.agrees_nonEmpty what ih

/-- What agreement says of an answer that is no fault: the second step gives it too, and either
step keeps the open blocks. -/
theorem Agree.of_ok {s t : State} {outcome : Outcome α} {reached : State}
    {y : Except Fault (Outcome α × State)} (h : Agree Keeps s t (.ok (outcome, reached)) y) :
    reached = s.moveTo reached.position ∧
      ∃ table, Keeps table ∧ y = .ok (outcome, { t with position := reached.position, table }) := by
  cases h with
  | answer outcome position table keeps => exact ⟨rfl, table, keeps, rfl⟩

/-- What agrees with a run within its bound is within its bound. -/
theorem Agree.ne_exhausted {s t : State} {x y : Except Fault (Outcome α × State)}
    (h : Agree Keeps s t x y) (hx : x ≠ .error .exhausted) : y ≠ .error .exhausted := by
  cases h with
  | exhausted => exact absurd rfl hx
  | fault => exact hx
  | answer => exact nofun

/-- A run within its bound that agrees with an answer gives that answer, and the table of the answer
keeps the invariant. -/
theorem Agree.eq_of_ok {s t t' : State} {x : Except Fault (Outcome α × State)} {outcome : Outcome α}
    (h : Agree Keeps s t x (.ok (outcome, t'))) (hx : x ≠ .error .exhausted) :
    x = .ok (outcome, s.moveTo t'.position) ∧ t'.blocks = t.blocks ∧ Keeps t'.table := by
  cases h with
  | exhausted => exact absurd rfl hx
  | answer outcome position table keeps => exact ⟨rfl, rfl, keeps⟩

end Offside.Packrat
