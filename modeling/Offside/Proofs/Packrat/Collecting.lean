import Offside.Proofs.Packrat.Spelling

/-!
# What a block collects

The lines of a block are the longest row of items that begin in the column of the first token, each
with the line ends behind it (`AlignedLines`). Where the row ends, the next token stands in another
column, or the item is not read there as something in a file (`EndsLines`). This tells how the block
answers (`BlockAnswers`, `Step.block_answers`).
-/

namespace Offside.Packrat

variable {α : Type}

section Collecting

variable (input : Input) (locate : α → Location) (item : Step α) (column : Nat)

/-- Items that are read one behind the other, each from a token in the column and with the line ends
behind it, from a state to a state. -/
inductive AlignedLines : State → List α → State → Prop where
  | nil (s : State) : AlignedLines s [] s
  | cons {s m s' : State} {value : α} {values : List α} :
      (s.current input).location.column? = some column → item input s = .ok (.ok value, m) →
      (locate value).isGenerated = false →
      AlignedLines (m.moveTo (m.position + input.lineEnds m.position)) values s' →
      AlignedLines s (value :: values) s'

/-- What the lines with the values come to where they end: the next token stands in another column,
or the item fails there, is located nowhere or runs into a fault. -/
inductive EndsLines (values : List α) (stop : State) :
    Except Fault (Outcome (List α) × Table) → Prop where
  | dedented : (stop.current input).location.column? ≠ some column →
      EndsLines values stop (.ok (.ok values, stop.table))
  | declined {failure : Failure} {reached : State} :
      (stop.current input).location.column? = some column →
      item input stop = .ok (.recoverable failure, reached) →
      EndsLines values stop (.ok (.ok values, reached.table))
  | aborted {failure : Failure} {reached : State} :
      (stop.current input).location.column? = some column →
      item input stop = .ok (.fatal failure, reached) →
      EndsLines values stop (.ok (.fatal failure, reached.table))
  | unplaced {value : α} {reached : State} :
      (stop.current input).location.column? = some column →
      item input stop = .ok (.ok value, reached) → (locate value).isGenerated = true →
      EndsLines values stop (.ok (.fatal ⟨locate value, .noColumn⟩, reached.table))
  | fault {cause : Fault} : (stop.current input).location.column? = some column →
      item input stop = .error cause → EndsLines values stop (.error cause)

end Collecting

namespace State

/-- The first token behind any line ends. -/
def opener (s : State) (input : Input) : Token :=
  input.tokenAt (s.position + input.lineEnds s.position)

/-- The state before that token, inside a block of a column. -/
def enterBlock (s : State) (input : Input) (column : Nat) : State :=
  (s.moveTo (s.position + input.lineEnds s.position)).openBlock column

end State

/-- Where a block leaves the position: where its lines end, or where it began if there are none. -/
def blockStop (start stop : Nat) : Outcome (List α) → Nat
  | .ok [] => start
  | _ => stop

/-- How a block answers at a state. -/
inductive BlockAnswers (input : Input) (locate : α → Location) (item : Step α) (s : State) :
    Except Fault (Outcome (List α) × State) → Prop where
  /-- Nothing deeper comes next. -/
  | missing : ((s.opener input).kind = .endOfInput ∨
        ∃ column, (s.opener input).location.column? = some column ∧ column ≤ s.indent) →
      BlockAnswers input locate item s
        (.ok (.recoverable ⟨(s.opener input).location, .expectedBlock⟩, s))
  /-- What comes next stands in no column. -/
  | noColumn : (s.opener input).kind ≠ .endOfInput →
      (s.opener input).location.isGenerated = true →
      BlockAnswers input locate item s (.ok (.fatal ⟨(s.opener input).location, .noColumn⟩, s))
  /-- The lines of the column are read, and the blocks are left as they were. -/
  | lines {column : Nat} {values : List α} {stop : State}
      {answer : Except Fault (Outcome (List α) × Table)} : (s.opener input).kind ≠ .endOfInput →
      (s.opener input).location.column? = some column → s.indent < column →
      AlignedLines input locate item column (s.enterBlock input column) values stop →
      EndsLines input locate item column values stop answer →
      BlockAnswers input locate item s (answer.map fun (outcome, table) ↦
        (outcome, { s with position := blockStop s.position stop.position outcome, table }))

private theorem Input.lt_size_of_column (input : Input) {p column : Nat}
    (h : (input.tokenAt p).location.column? = some column) : p < input.tokens.size := by
  apply Nat.lt_of_not_le
  intro hle
  rw [tokenAt, Array.getElem?_eq_none hle] at h
  cases h

namespace Step

variable {input : Input} {locate : α → Location} {item : Step α} {column : Nat} {s : State}

/-! ### One line -/

private theorem lineEnds_eq_ite (input : Input) (p : Nat) :
    input.lineEnds p =
      if (input.tokenAt p).kind = .endOfLine then input.lineEnds (p + 1) + 1 else 0 := by
  unfold Input.lineEnds Input.tokenAt
  by_cases hp : p < input.tokens.size
  · rw [List.drop_eq_getElem_cons (by simpa using hp), List.takeWhile_cons,
      Array.getElem?_eq_getElem hp]
    by_cases hkind : input.tokens[p].kind = .endOfLine <;> simp [hkind]
  · rw [Array.getElem?_eq_none (Nat.le_of_not_lt hp), List.drop_eq_nil_of_le (by simpa using hp)]
    rfl

private theorem repeated_lineEnds {allowed : Nat} (h : input.lineEnds s.position < allowed) :
    ∃ ends, repeated (token .endOfLine) allowed input s =
      .ok (.ok ends, s.moveTo (s.position + input.lineEnds s.position)) := by
  induction allowed generalizing s with
  | zero => omega
  | succ allowed ih =>
    rw [lineEnds_eq_ite] at h ⊢
    by_cases hkind : (s.current input).kind = .endOfLine
    · rw [State.current] at hkind
      have hlt := (input.lt_after_iff s.position).2 (input.lt_size_of_kind (by simp [hkind]))
      have hafter : input.after s.position = s.position + 1 := by
        unfold Input.after at hlt ⊢
        split at hlt <;> simp_all
      have htoken : token .endOfLine input s =
          .ok (.ok (input.tokenAt s.position), s.moveTo (s.position + 1)) := by
        rw [token, State.current, if_pos hkind, State.advance_eq, hafter]
      rw [if_pos hkind] at h ⊢
      obtain ⟨ends, hends⟩ := ih (s := s.moveTo (s.position + 1)) (by simpa using h)
      refine ⟨input.tokenAt s.position :: ends, ?_⟩
      have hmoved : ¬ (s.moveTo (s.position + 1)).position = s.position := by
        rw [State.position_moveTo]
        omega
      simp only [repeated, htoken, if_neg hmoved, mapOutcome, hends]
      simp [Outcome.map, State.moveTo, Nat.add_comm, Nat.add_assoc]
    · have htoken : token .endOfLine input s =
          fail (.expectedToken .endOfLine) input s := by
        rw [token, if_neg hkind]
      refine ⟨[], ?_⟩
      rw [State.current] at hkind
      simp only [repeated, htoken, if_neg hkind]
      rfl

/-- All line ends that come next are passed. -/
theorem many_lineEnds (input : Input) (s : State) :
    ∃ ends, many (token .endOfLine) input s =
      .ok (.ok ends, s.moveTo (s.position + input.lineEnds s.position)) := by
  refine repeated_lineEnds ?_
  have hwithin := (input.within_lineEnds s.position).2
  unfold Input.attempts
  omega

/-- A line is its item and the line ends behind it; where the item fails, the line does not move. -/
theorem line_eq (item : Step α) (input : Input) (s : State) :
    line item input s = match item input s with
      | .error fault => .error fault
      | .ok (.ok value, m) => .ok (.ok value, m.moveTo (m.position + input.lineEnds m.position))
      | .ok (failed, m) => .ok (failed, m.moveTo s.position) := by
  unfold line mapOutcome seq atomic bind
  rcases item input s with fault | ⟨value | failure | failure, m⟩
  · rfl
  · obtain ⟨ends, hends⟩ := many_lineEnds input m
    simp only [hends, succeed, Outcome.map]
  · rfl
  · rfl

/-! ### All lines -/

-- One more line in front changes nothing but the values.
private theorem endsLines_cons {values : List α} {stop : State} (value : α)
    {answer : Except Fault (Outcome (List α) × Table)}
    (h : EndsLines input locate item column values stop answer) :
    EndsLines input locate item column (value :: values) stop
      (answer.map fun (outcome, table) ↦ (outcome.map (value :: ·), table)) := by
  cases h with
  | dedented hcolumn => exact .dedented hcolumn
  | declined hcolumn hitem => exact .declined hcolumn hitem
  | aborted hcolumn hitem => exact .aborted hcolumn hitem
  | unplaced hcolumn hitem hlocated => exact .unplaced hcolumn hitem hlocated
  | fault hcolumn hitem => exact .fault hcolumn hitem

/-- The lines of a column are read up to where they end, with any number of attempts that is enough
for the tokens that are left. -/
theorem aligned_lines (column : Nat) (hkeeps : item.KeepsBlocks input)
    (hadvances : ∀ s value s', item input s = .ok (.ok value, s') →
      (locate value).isGenerated = false → s.position < s'.position)
    {allowed : Nat} (hallowed : input.tokens.size - s.position < allowed) :
    ∃ values stop answer, AlignedLines input locate item column s values stop ∧
      EndsLines input locate item column values stop answer ∧
      aligned column locate (line item) allowed input s = answer.map fun (outcome, table) ↦
        (outcome, { s with position := stop.position, table }) := by
  induction allowed generalizing s with
  | zero => omega
  | succ allowed ih =>
    by_cases hcolumn : (s.current input).location.column? = some column
    · rcases hitem : item input s with cause | ⟨value | failure | failure, m⟩
      · refine ⟨[], s, _, .nil s, .fault hcolumn hitem, ?_⟩
        simp [aligned, hcolumn, line_eq, hitem, Except.map]
      · cases hlocated : (locate value).isGenerated with
        | true =>
          refine ⟨[], s, _, .nil s, .unplaced hcolumn hitem hlocated, ?_⟩
          simp [aligned, hcolumn, line_eq, hitem, hlocated, Except.map, State.moveTo,
            hkeeps _ _ _ hitem]
        | false =>
          have hlt := hadvances _ _ _ hitem hlocated
          have hinside : s.position < input.tokens.size :=
            input.lt_size_of_column hcolumn
          obtain ⟨values, stop, answer, hlines, hends, haligned⟩ := ih
            (s := m.moveTo (m.position + input.lineEnds m.position))
            (by rw [State.position_moveTo]; omega)
          refine ⟨value :: values, stop, _, .cons hcolumn hitem hlocated hlines,
            endsLines_cons value hends, ?_⟩
          simp only [aligned, hcolumn, ne_eq, not_true_eq_false, if_false, line_eq, hitem, hlocated,
            Bool.false_eq_true, mapOutcome, haligned]
          cases answer <;> simp [Except.map, hkeeps _ _ _ hitem]
      · refine ⟨[], s, _, .nil s, .declined hcolumn hitem, ?_⟩
        simp [aligned, hcolumn, line_eq, hitem, Except.map, State.moveTo, hkeeps _ _ _ hitem]
      · refine ⟨[], s, _, .nil s, .aborted hcolumn hitem, ?_⟩
        simp [aligned, hcolumn, line_eq, hitem, Except.map, State.moveTo, hkeeps _ _ _ hitem]
    · refine ⟨[], s, _, .nil s, .dedented hcolumn, ?_⟩
      simp [aligned, hcolumn, Except.map]

/-- A block of an item that leaves the blocks as they were, and goes forward wherever it reads
something in a file, answers by its lines and by what is where they end. -/
theorem block_answers (hkeeps : item.KeepsBlocks input)
    (hadvances : ∀ s value s', item input s = .ok (.ok value, s') →
      (locate value).isGenerated = false → s.position < s'.position) (s : State) :
    BlockAnswers input locate item s (block locate item input s) := by
  unfold block
  dsimp only
  split
  · next hend => exact .missing (.inl hend)
  · next hkind =>
    split
    · next hnone =>
      refine .noColumn hkind ?_
      unfold State.opener
      cases hlocation : (input.tokenAt (s.position + input.lineEnds s.position)).location with
      | concrete => simp [hlocation, Location.column?] at hnone
      | generated => rfl
    · next column hcolumn =>
      split
      · next hle => exact .missing (.inr ⟨column, hcolumn, hle⟩)
      · next hlt =>
        have hallowed : input.tokens.size - (s.enterBlock input column).position <
          input.attempts (s.position + input.lineEnds s.position) := Nat.lt_succ_self _
        obtain ⟨values, stop, answer, hlines, hends, haligned⟩ :=
          aligned_lines column hkeeps hadvances hallowed
        have hanswers := BlockAnswers.lines hkind hcolumn (Nat.lt_of_not_le hlt) hlines hends
        rw [← State.enterBlock, haligned]
        rcases answer with cause | ⟨⟨_ | ⟨value, values⟩⟩ | failure | failure, table⟩ <;>
          exact hanswers

/-- Names on lines of their own are such items. -/
theorem block_answers_names :
    let name (text : String) (row column offset : Nat) : Token :=
      ⟨⟨.identifier, .text text⟩, .concrete "" row column offset⟩
    let input : Input := ⟨#[name "a" 1 3 2, ⟨⟨.endOfLine, .none⟩, .concrete "" 1 4 3⟩,
      name "b" 2 3 6, name "c" 2 5 8], false⟩
    (token .identifier).KeepsBlocks input ∧
      (∀ s value s', token .identifier input s = .ok (.ok value, s') →
        value.location.isGenerated = false → s.position < s'.position) ∧
      BlockAnswers input Token.location (token .identifier) .start
        (block Token.location (token .identifier) input .start) := by
  intro name input
  have hkeeps : (token .identifier).KeepsBlocks input := (agrees_token _).keepsBlocks
  have hadvances : ∀ s value s', token .identifier input s = .ok (.ok value, s') →
      value.location.isGenerated = false → s.position < s'.position := by
    intro s value s' h _
    obtain ⟨hkind, rfl, rfl⟩ := token_eq_ok.1 h
    exact (input.lt_after_iff s.position).2 (input.lt_size_of_kind (by simp [hkind]))
  exact ⟨hkeeps, hadvances, block_answers hkeeps hadvances .start⟩

end Step

end Offside.Packrat
