import Offside.Packrat.Step
import Offside.Proofs.Packrat.TokenRow

/-!
# What steps read

The converse of acceptance. A `View` is what a parse has before it: the tokens that are left, and
whether a line has just ended. A step yields a value between two views if it answers that value
wherever it starts at the first, and stops at the second (`Step.Yields`); it declines a view if it
fails recoverably there (`Step.Declines`). Steps that are put together yield from view to view.
-/

namespace Offside.Packrat

variable {α β : Type}

/-- What a parse has before it. -/
structure View where
  /-- A line has just ended. -/
  ended : Bool
  /-- The tokens that are left. -/
  tokens : List Token

namespace View

/-- The kind of the next token. -/
def ahead (view : View) : TokenKind :=
  match view.tokens with
  | [] => .endOfInput
  | token :: _ => token.kind

/-- The column of the next token. -/
def column? (view : View) : Option Nat :=
  match view.tokens with
  | [] => none
  | token :: _ => token.location.column?

/-- The view behind a token. -/
def behind (token : Token) (rest : List Token) : View := ⟨token.kind = .endOfLine, rest⟩

/-- Line ends stand between the views, or nothing. -/
inductive Skips : View → View → Prop where
  | refl (view : View) : Skips view view
  | cons {ended : Bool} {token : Token} {rest : List Token} {next : View} :
      token.kind = .endOfLine → Skips ⟨true, rest⟩ next → Skips ⟨ended, token :: rest⟩ next

/-- Line ends stand between the views, at least one. -/
inductive Breaks : View → View → Prop where
  | mk {ended : Bool} {token : Token} {rest : List Token} {next : View} :
      token.kind = .endOfLine → Skips ⟨true, rest⟩ next → Breaks ⟨ended, token :: rest⟩ next

/-- A token of the kind stands between the views, at a place of a file. -/
inductive Passes (kind : TokenKind) : View → View → Prop where
  | mk {ended : Bool} {token : Token} {rest : List Token} :
      token.kind = kind → token.location.isGenerated = false →
      Passes kind ⟨ended, token :: rest⟩ (.behind token rest)

/-- The next token is the first that is left. -/
@[simp] theorem ahead_cons (ended : Bool) (token : Token) (rest : List Token) :
    ahead ⟨ended, token :: rest⟩ = token.kind := rfl

/-- The next column is that of the first token that is left. -/
@[simp] theorem column?_cons (ended : Bool) (token : Token) (rest : List Token) :
    column? ⟨ended, token :: rest⟩ = token.location.column? := rfl

private theorem behind_of_endOfLine {token : Token} (h : token.kind = .endOfLine)
    (rest : List Token) :
    behind token rest = ⟨true, rest⟩ := by simp [behind, h]

/-- The token that is passed is the next one. -/
theorem Passes.ahead {kind : TokenKind} {view next : View} (h : view.Passes kind next) :
    view.ahead = kind := by
  cases h with
  | mk hkind => exact hkind

/-- Passing a token that ends no line ends no line. -/
theorem Passes.ended {kind : TokenKind} {view next : View} (h : view.Passes kind next)
    (hkind : kind ≠ .endOfLine) : next.ended = false := by
  cases h with
  | mk htoken =>
    subst htoken
    exact decide_eq_false hkind

/-- Passing a token leaves fewer tokens. -/
theorem Passes.length_lt {kind : TokenKind} {view next : View} (h : view.Passes kind next) :
    next.tokens.length < view.tokens.length := by
  cases h with
  | mk => exact Nat.lt_succ_self _

private theorem Skips.trans {view next last : View} (h : Skips view next)
    (hnext : Skips next last) :
    Skips view last := by
  induction h with
  | refl => exact hnext
  | cons hkind _ ih => exact .cons hkind (ih hnext)

/-- Line ends, at least one, are line ends. -/
theorem Breaks.skips {view next : View} (h : Breaks view next) : Skips view next := by
  cases h with
  | mk hkind hskips => exact .cons hkind hskips

/-- More line ends may follow line ends. -/
theorem Breaks.trans {view next last : View} (h : Breaks view next) (hnext : Skips next last) :
    Breaks view last := by
  cases h with
  | mk hkind hskips => exact .mk hkind (hskips.trans hnext)

/-- Behind line ends, a line has ended. -/
theorem Skips.ended {view next : View} (h : Skips view next) (hended : view.ended = true) :
    next.ended = true := by
  induction h with
  | refl => exact hended
  | cons _ _ ih => exact ih rfl

/-- Behind line ends a line has ended. -/
theorem Breaks.ended {view next : View} (h : Breaks view next) : next.ended = true := by
  cases h with
  | mk _ hskips => exact hskips.ended rfl

private theorem Skips.length_le {view next : View} (h : Skips view next) :
    next.tokens.length ≤ view.tokens.length := by
  induction h with
  | refl => exact Nat.le_refl _
  | cons _ _ ih => exact Nat.le_succ_of_le ih

/-- Passing line ends, at least one, leaves fewer tokens. -/
theorem Breaks.length_lt {view next : View} (h : Breaks view next) :
    next.tokens.length < view.tokens.length := by
  cases h with
  | mk _ hskips => exact Nat.lt_succ_of_le hskips.length_le

end View

/-- The state stands at an indent before what is viewed. -/
structure State.Faces (s : State) (input : Input) (indent : Nat) (view : View) : Prop where
  indent : s.indent = indent
  tokens : input.tokens.toList.drop s.position = view.tokens
  ended : s.isBehindLineEnd input = view.ended

/-- What the state has before it. -/
def State.view (s : State) (input : Input) : View :=
  ⟨s.isBehindLineEnd input, input.tokens.toList.drop s.position⟩

/-- A state faces the view that it has. -/
theorem State.faces_view (s : State) (input : Input) : s.Faces input s.indent (s.view input) :=
  ⟨rfl, rfl, rfl⟩

namespace State.Faces

variable {s : State} {input : Input} {indent : Nat} {view : View}

private theorem getElem? (h : s.Faces input indent view) :
    input.tokens[s.position]? = view.tokens.head? := by
  rw [← h.tokens, List.head?_drop, Array.getElem?_toList]

/-- The current token is the first that is left. -/
theorem current {token : Token} {rest : List Token} (h : s.Faces input indent view)
    (hview : view.tokens = token :: rest) : s.current input = token := by
  have hget := h.getElem?
  rw [hview, List.head?_cons] at hget
  rw [State.current, Input.tokenAt, hget, Option.getD_some]

/-- The current token is of the kind that is ahead. -/
theorem kind_current (h : s.Faces input indent view) : (s.current input).kind = view.ahead := by
  have hget := h.getElem?
  rw [State.current, Input.tokenAt, hget]
  unfold View.ahead
  cases view.tokens <;> rfl

private theorem column_current (h : s.Faces input indent view) :
    (s.current input).location.column? = view.column? := by
  have hget := h.getElem?
  rw [State.current, Input.tokenAt, hget]
  unfold View.column?
  cases view.tokens <;> rfl

/-- As many attempts are allowed as tokens are left, and one more. -/
theorem attempts (h : s.Faces input indent view) :
    input.attempts s.position = view.tokens.length + 1 := by
  rw [← h.tokens, List.length_drop, Array.length_toList]
  rfl

/-- Behind a row of tokens, the state stands before the rest. -/
theorem moved (h : s.Faces input indent view) (row : List Token) {rest : List Token} {token : Token}
    (hview : view.tokens = row ++ token :: rest) :
    (s.moveTo (s.position + (row.length + 1))).Faces input indent (.behind token rest) := by
  have hdrop := h.tokens
  rw [hview] at hdrop
  refine ⟨h.indent, ?_, ?_⟩
  · rw [State.position_moveTo, ← List.drop_drop, hdrop, List.append_cons,
      List.drop_left' (by simp)]
    rfl
  · have hget : input.tokens[s.position + row.length]? = some token := by
      rw [← Array.getElem?_toList, ← List.getElem?_drop, hdrop,
        List.getElem?_append_right (Nat.le_refl _), Nat.sub_self, List.getElem?_cons_zero]
    rw [← Nat.add_assoc]
    simp only [State.isBehindLineEnd, State.previous?, State.moveTo, hget]
    rfl

/-- Behind all line ends, the state stands before what comes next. -/
theorem skipped {next : View} (h : s.Faces input indent view) (hskips : view.Skips next)
    (hnext : next.ahead ≠ .endOfLine) :
    (s.moveTo (s.position + input.lineEnds s.position)).Faces input indent next := by
  induction hskips generalizing s with
  | refl =>
    have hnone : input.lineEnds s.position = 0 := by
      unfold Input.lineEnds
      rw [h.tokens]
      unfold View.ahead at hnext
      split at hnext
      · next hnil => rw [hnil]; rfl
      · next hcons => rw [hcons, List.takeWhile_cons_of_neg (by simpa using hnext)]; rfl
    rw [hnone]
    exact h
  | cons hkind _ ih =>
    have hmoved := h.moved [] rfl
    rw [View.behind_of_endOfLine hkind] at hmoved
    have hmore : input.lineEnds s.position = input.lineEnds (s.position + 1) + 1 := by
      unfold Input.lineEnds
      have hlater := hmoved.tokens
      dsimp only [State.position_moveTo, List.length_nil] at hlater
      rw [h.tokens, hlater, List.takeWhile_cons_of_pos (by simpa using hkind), List.length_cons]
    rw [hmore, ← Nat.add_assoc, Nat.add_right_comm]
    exact ih hmoved hnext

private theorem tokens_eq {next : View} {position : Nat} (h : s.Faces input indent view)
    (hnext : (s.moveTo position).Faces input indent next) (hstay : position = s.position) :
    next.tokens = view.tokens := by
  rw [← h.tokens, ← hnext.tokens, hstay]
  rfl

end State.Faces

/-! ### Answers -/

variable (tokens : Array Token)

/-- Wherever the step starts before the one view, it answers a value of which the claim holds, and
stops before the other. -/
def Step.Yields (step : Step α) (indent : Nat) (view next : View) (claim : α → Prop) : Prop :=
  ∀ s : State, s.Faces ⟨tokens, false⟩ indent view → ∃ found position,
    step ⟨tokens, false⟩ s = .ok (.ok found, s.moveTo position) ∧ claim found ∧
      (s.moveTo position).Faces ⟨tokens, false⟩ indent next

/-- The step fails recoverably wherever it starts before the view. -/
def Step.Declines (step : Step α) (indent : Nat) (view : View) : Prop :=
  ∀ s : State, s.Faces ⟨tokens, false⟩ indent view → ∃ failure position,
    step ⟨tokens, false⟩ s = .ok (.recoverable failure, s.moveTo position)

namespace Step

variable {tokens} {indent : Nat} {view next last : View} {a : Step α} {b : Step β}
  {claim : α → Prop} {claim' : β → Prop}

/-- A step yields whatever follows from what it yields. -/
theorem Yields.mono {weaker : α → Prop} (ha : a.Yields tokens indent view next claim)
    (h : ∀ found, claim found → weaker found) : a.Yields tokens indent view next weaker := by
  intro s hs
  obtain ⟨found, position, heq, hclaim, hnext⟩ := ha s hs
  exact ⟨found, position, heq, h found hclaim, hnext⟩

/-! ### Single tokens -/

/-- A failing step declines every view. -/
theorem declines_fail (problem : Terminal → Problem) (indent : Nat) (view : View) :
    (fail (α := α) problem).Declines tokens indent view := fun s _ ↦ ⟨_, s.position, rfl⟩

private theorem advance_eq {s : State} {token : Token} {rest : List Token}
    (hs : s.Faces ⟨tokens, false⟩ indent view) (hview : view.tokens = token :: rest) :
    s.advance ⟨tokens, false⟩ = s.moveTo (s.position + 1) := by
  have hget := hs.getElem?
  rw [hview, List.head?_cons] at hget
  have hlt : s.position < tokens.size := (Array.getElem?_eq_some_iff.1 hget).1
  rw [State.advance, if_pos hlt]

/-- A token of the kind is read. -/
theorem yields_token {token : Token} {rest : List Token} {kind : TokenKind}
    (hview : view.tokens = token :: rest) (hkind : token.kind = kind) (indent : Nat) :
    (Step.token kind).Yields tokens indent view (.behind token rest) (· = token) := by
  intro s hs
  refine ⟨token, s.position + 1, ?_, rfl, hs.moved [] hview⟩
  simp only [Step.token, hs.current hview, hkind, if_true, advance_eq hs hview]

/-- A token that stands at a place of a file is read. -/
theorem yields_passed {kind : TokenKind} (h : view.Passes kind next) (indent : Nat) :
    (Step.token kind).Yields tokens indent view next (·.location.isGenerated = false) := by
  cases h with
  | mk hkind hlocation =>
    refine (yields_token rfl hkind indent).mono fun found hfound ↦ ?_
    rw [hfound]
    exact hlocation

/-- A token of another kind is declined. -/
theorem declines_token {kind : TokenKind} (h : view.ahead ≠ kind) (indent : Nat) :
    (Step.token kind).Declines tokens indent view := by
  intro s hs
  simp only [Step.token, hs.kind_current, if_neg h]
  exact declines_fail _ indent view s hs

/-- A token of the kind is read as the value it carries. -/
theorem yields_value {token : Token} {rest : List Token} {kind : TokenKind}
    {read : Payload → Option α} {found : α} (hview : view.tokens = token :: rest)
    (hkind : token.kind = kind) (hread : read token.payload = some found) (indent : Nat) :
    (Step.value kind read).Yields tokens indent view (.behind token rest)
      (· = (found, token.location)) := by
  intro s hs
  obtain ⟨_, position, heq, rfl, hnext⟩ := yields_token hview hkind indent s hs
  exact ⟨_, position, by simp only [Step.value, heq, hread], rfl, hnext⟩

/-- A value is declined where the token is of another kind. -/
theorem declines_value {kind : TokenKind} (h : view.ahead ≠ kind) (read : Payload → Option α)
    (indent : Nat) : (Step.value kind read).Declines tokens indent view := by
  intro s hs
  obtain ⟨failure, position, heq⟩ := declines_token h indent s hs
  exact ⟨failure, position, by simp only [Step.value, heq]⟩

/-- The location of the next token is read without passing it. -/
theorem yields_here {token : Token} {rest : List Token} (hview : view.tokens = token :: rest)
    (indent : Nat) : Step.here.Yields tokens indent view view (· = token.location) := by
  intro s hs
  refine ⟨_, s.position, ?_, rfl, hs⟩
  simp only [Step.here, hs.current hview]
  rfl

/-- A line end closes a statement. -/
theorem yields_endOfStatement {ended : Bool} {token : Token} (rest : List Token)
    (hkind : token.kind = .endOfLine) (indent : Nat) :
    Step.endOfStatement.Yields tokens indent ⟨ended, token :: rest⟩ ⟨true, rest⟩ fun _ ↦ True := by
  intro s hs
  rw [← View.behind_of_endOfLine hkind]
  refine ⟨(), s.position + 1, ?_, trivial, hs.moved [] rfl⟩
  simp only [Step.endOfStatement, hs.current rfl, hkind, if_true, advance_eq hs rfl]

/-- A statement that has passed its line end is closed by nothing. -/
theorem yields_endOfStatement_nil (h : view.ahead ≠ .endOfLine) (hended : view.ended = true)
    (indent : Nat) : Step.endOfStatement.Yields tokens indent view view fun _ ↦ True := by
  intro s hs
  refine ⟨(), s.position, ?_, trivial, hs⟩
  simp only [Step.endOfStatement, hs.kind_current, if_neg h, hs.ended, hended, if_true]
  rfl

/-! ### One after the other -/

/-- Two steps in order yield what both do. -/
theorem Yields.seq (ha : a.Yields tokens indent view next claim)
    (hb : b.Yields tokens indent next last claim') :
    (Step.seq a b).Yields tokens indent view last fun found ↦ claim found.1 ∧ claim' found.2 := by
  intro s hs
  obtain ⟨first, middle, hfirst, hclaim, hmiddle⟩ := ha s hs
  obtain ⟨second, position, hsecond, hclaim', hlast⟩ := hb _ hmiddle
  exact ⟨(first, second), position, by
    simp only [Step.seq, Step.atomic, Step.bind, hfirst, hsecond, Step.succeed]
    rfl, ⟨hclaim, hclaim'⟩, hlast⟩

/-- Two steps in order decline where the first does. -/
theorem Declines.seq (ha : a.Declines tokens indent view) (b : Step β) :
    (Step.seq a b).Declines tokens indent view := by
  intro s hs
  obtain ⟨failure, position, hfirst⟩ := ha s hs
  exact ⟨failure, s.position, by simp only [Step.seq, Step.atomic, Step.bind, hfirst]; rfl⟩

/-- Two steps in order decline where the second does behind the first. -/
theorem Yields.seq_declines (ha : a.Yields tokens indent view next claim)
    (hb : b.Declines tokens indent next) : (Step.seq a b).Declines tokens indent view := by
  intro s hs
  obtain ⟨first, middle, hfirst, -, hmiddle⟩ := ha s hs
  obtain ⟨failure, position, hsecond⟩ := hb _ hmiddle
  exact ⟨failure, s.position, by
    simp only [Step.seq, Step.atomic, Step.bind, hfirst, hsecond]
    rfl⟩

/-- A function is applied to what a step yields. -/
theorem Yields.map (ha : a.Yields tokens indent view next claim) {f : α → β}
    (h : ∀ found, claim found → claim' (f found)) :
    (mapOutcome (.map f) a).Yields tokens indent view next claim' := by
  intro s hs
  obtain ⟨found, position, heq, hclaim, hnext⟩ := ha s hs
  exact ⟨f found, position, by simp only [mapOutcome, heq, Outcome.map], h found hclaim, hnext⟩

/-- A function of what is read declines where the step does. -/
theorem Declines.map (ha : a.Declines tokens indent view) (f : α → β) :
    (mapOutcome (.map f) a).Declines tokens indent view := by
  intro s hs
  obtain ⟨failure, position, heq⟩ := ha s hs
  exact ⟨failure, position, by simp only [mapOutcome, heq, Outcome.map]⟩

/-- The second step is only passed. -/
theorem Yields.skip (ha : a.Yields tokens indent view next claim)
    (hb : b.Yields tokens indent next last claim') :
    (mapOutcome (.map Prod.fst) (Step.seq a b)).Yields tokens indent view last claim :=
  (ha.seq hb).map fun _ hclaims ↦ hclaims.1

/-- The first step is only passed. -/
theorem Yields.skipLeft (ha : a.Yields tokens indent view next claim)
    (hb : b.Yields tokens indent next last claim') :
    (mapOutcome (.map Prod.snd) (Step.seq a b)).Yields tokens indent view last claim' :=
  (ha.seq hb).map fun _ hclaims ↦ hclaims.2

/-- A judged step yields what the judgement accepts. -/
theorem Yields.check {verdict : α → Outcome β} (ha : a.Yields tokens indent view next claim)
    (h : ∀ found, claim found → ∃ judged, verdict found = .ok judged ∧ claim' judged) :
    (check a verdict).Yields tokens indent view next claim' := by
  intro s hs
  obtain ⟨found, position, heq, hclaim, hnext⟩ := ha s hs
  obtain ⟨judged, hverdict, hclaim'⟩ := h found hclaim
  exact ⟨judged, position,
    by simp only [Step.check, Step.atomic, Step.bind, heq, hverdict], hclaim', hnext⟩

/-- A judged step declines where the step does. -/
theorem Declines.check (ha : a.Declines tokens indent view) (verdict : α → Outcome β) :
    (Step.check a verdict).Declines tokens indent view := by
  intro s hs
  obtain ⟨failure, position, heq⟩ := ha s hs
  exact ⟨failure, s.position, by simp only [Step.check, Step.atomic, Step.bind, heq]; rfl⟩

/-- A committed step yields what the step does. -/
theorem Yields.commit (ha : a.Yields tokens indent view next claim) :
    (mapOutcome .commit a).Yields tokens indent view next claim := by
  intro s hs
  obtain ⟨found, position, heq, hclaim, hnext⟩ := ha s hs
  exact ⟨found, position, by simp only [mapOutcome, heq, Outcome.commit], hclaim, hnext⟩

/-- A step that is committed with a cause of its own yields what the step does. -/
theorem Yields.commitAs (problem : Problem) (ha : a.Yields tokens indent view next claim) :
    (mapOutcome (.commitAs problem) a).Yields tokens indent view next claim := by
  intro s hs
  obtain ⟨found, position, heq, hclaim, hnext⟩ := ha s hs
  exact ⟨found, position, by simp only [mapOutcome, heq, Outcome.commitAs], hclaim, hnext⟩

/-! ### Conditions -/

/-- On the same line a step yields what it does anywhere. -/
theorem Yields.sameLine (ha : a.Yields tokens indent view next claim) (h : view.ended = false) :
    (Step.sameLine a).Yields tokens indent view next claim := by
  intro s hs
  simp only [Step.sameLine, hs.ended, h, Bool.false_eq_true, if_false]
  exact ha s hs

/-- A step that must stand on the line declines behind the end of one, or where it declines
itself. -/
theorem declines_sameLine (h : view.ended = false → a.Declines tokens indent view) :
    (Step.sameLine a).Declines tokens indent view := by
  intro s hs
  cases hended : view.ended with
  | true =>
    simp only [Step.sameLine, hs.ended, hended, if_true]
    exact declines_fail _ indent view s hs
  | false =>
    simp only [Step.sameLine, hs.ended, hended, Bool.false_eq_true, if_false]
    exact h hended s hs

/-- In the column of the block a step yields what it does anywhere. -/
theorem Yields.inBlockColumn (ha : a.Yields tokens indent view next claim)
    (h : view.column? = some indent) :
    (Step.inBlockColumn a).Yields tokens indent view next claim := by
  intro s hs
  simp only [Step.inBlockColumn, hs.column_current, hs.indent, h, if_true]
  exact ha s hs

/-- A step that must stand in the column of the block declines elsewhere, or where it declines
itself. -/
theorem declines_inBlockColumn (h : view.column? = some indent → a.Declines tokens indent view) :
    (Step.inBlockColumn a).Declines tokens indent view := by
  intro s hs
  simp only [Step.inBlockColumn, hs.column_current, hs.indent]
  split
  · next hcolumn => exact h hcolumn s hs
  · exact declines_fail _ indent view s hs

/-- The step for the kind that is ahead is the one that yields. -/
theorem yields_onKind {steps : TokenKind → Step α} {kind : TokenKind} (hview : view.ahead = kind)
    (h : (steps kind).Yields tokens indent view next claim) :
    (Step.onKind steps).Yields tokens indent view next claim := by
  intro s hs
  simp only [Step.onKind, hs.kind_current, hview]
  exact h s hs

/-- The step for the kind that is ahead is the one that declines. -/
theorem declines_onKind {steps : TokenKind → Step α}
    (h : (steps view.ahead).Declines tokens indent view) :
    (Step.onKind steps).Declines tokens indent view := by
  intro s hs
  simp only [Step.onKind, hs.kind_current]
  exact h s hs

/-! ### Choices -/

/-- An optional step yields what the step does. -/
theorem Yields.optional (ha : a.Yields tokens indent view next claim) :
    (Step.optional a).Yields tokens indent view next fun found ↦
      ∃ value, found = some value ∧ claim value := by
  intro s hs
  obtain ⟨found, position, heq, hclaim, hnext⟩ := ha s hs
  exact ⟨some found, position, by simp only [Step.optional, heq], ⟨found, rfl, hclaim⟩, hnext⟩

/-- An optional step yields none where the step declines. -/
theorem Declines.optional (ha : a.Declines tokens indent view) :
    (Step.optional a).Yields tokens indent view view (· = none) := by
  intro s hs
  obtain ⟨failure, position, heq⟩ := ha s hs
  refine ⟨none, s.position, ?_, rfl, hs⟩
  simp only [Step.optional, heq]
  rfl

/-- Alternatives yield what the first of them does. -/
theorem Yields.orElse (ha : a.Yields tokens indent view next claim) (b : Step α) :
    (Step.orElse a b).Yields tokens indent view next claim := by
  intro s hs
  obtain ⟨found, position, heq, hclaim, hnext⟩ := ha s hs
  exact ⟨found, position, by simp only [Step.orElse, heq], hclaim, hnext⟩

/-- Alternatives yield what the second does where the first declines. -/
theorem Declines.orElse_yields {b : Step α} (ha : a.Declines tokens indent view)
    (hb : b.Yields tokens indent view next claim) :
    (Step.orElse a b).Yields tokens indent view next claim := by
  intro s hs
  obtain ⟨failure, position, heq⟩ := ha s hs
  simp only [Step.orElse, heq]
  exact hb s hs

/-- Alternatives decline where both do. -/
theorem Declines.orElse {b : Step α} (ha : a.Declines tokens indent view)
    (hb : b.Declines tokens indent view) : (Step.orElse a b).Declines tokens indent view := by
  intro s hs
  obtain ⟨failure, position, heq⟩ := ha s hs
  simp only [Step.orElse, heq]
  exact hb s hs

/-! ### Repetitions -/

/-- More attempts than needed change nothing. -/
theorem repeated_add {input : Input} {s : State} {allowed : Nat} {answer : Outcome (List α) × State}
    (h : repeated a allowed input s = .ok answer) (more : Nat) :
    repeated a (allowed + more) input s = .ok answer := by
  induction allowed generalizing s answer with
  | zero => cases h
  | succ allowed ih =>
    rw [Nat.add_right_comm]
    unfold repeated at h ⊢
    cases hstep : a input s with
    | error fault =>
      rw [hstep] at h
      cases h
    | ok reached =>
      obtain ⟨outcome, s'⟩ := reached
      rw [hstep] at h
      cases outcome with
      | recoverable failure => exact h
      | fatal failure => exact h
      | ok item =>
        dsimp only at h ⊢
        split at h
        · next hstay =>
          rw [if_pos hstay]
          exact h
        · next hmove =>
          rw [if_neg hmove]
          unfold mapOutcome at h ⊢
          cases hrest : repeated a allowed input s' with
          | error fault =>
            rw [hrest] at h
            cases h
          | ok later =>
            rw [hrest] at h
            rw [ih hrest]
            exact h

/-- Successes in a row are none where the step declines. -/
theorem Declines.many (ha : a.Declines tokens indent view) :
    (Step.many a).Yields tokens indent view view (· = []) := by
  intro s hs
  obtain ⟨failure, position, heq⟩ := ha s hs
  refine ⟨[], s.position, ?_, rfl, hs⟩
  simp only [Step.many, hs.attempts, Step.repeated, heq]
  rfl

/-- A repetition answers what it does behind the first item, if the item takes up tokens. -/
theorem many_eq_of_ok {s : State} {first : α} {middle : Nat} {answer : Outcome (List α) × State}
    (hs : s.Faces ⟨tokens, false⟩ indent view)
    (hmiddle : (s.moveTo middle).Faces ⟨tokens, false⟩ indent next)
    (hlt : next.tokens.length < view.tokens.length)
    (hfirst : a ⟨tokens, false⟩ s = .ok (.ok first, s.moveTo middle))
    (hmany : many a ⟨tokens, false⟩ (s.moveTo middle) = .ok answer) :
    many a ⟨tokens, false⟩ s = .ok (answer.1.map (first :: ·), answer.2) := by
  have hmoves : ¬ (s.moveTo middle).position = s.position := by
    intro hstay
    rw [hs.tokens_eq hmiddle hstay] at hlt
    exact Nat.lt_irrefl _ hlt
  obtain ⟨more, hmore⟩ := Nat.exists_eq_add_of_lt hlt
  unfold many at hmany ⊢
  rw [hmiddle.attempts] at hmany
  rw [hs.attempts, hmore, Nat.add_right_comm _ more]
  generalize next.tokens.length + 1 = allowed at hmany ⊢
  rw [repeated]
  simp only [hfirst]
  rw [if_neg hmoves, mapOutcome, repeated_add hmany]

/-- Something before other things, where each takes up tokens. -/
theorem Yields.many_cons {items : List α → Prop} (ha : a.Yields tokens indent view next claim)
    (hlt : next.tokens.length < view.tokens.length)
    (hmany : (Step.many a).Yields tokens indent next last items) :
    (Step.many a).Yields tokens indent view last fun found ↦
      ∃ first rest, found = first :: rest ∧ claim first ∧ items rest := by
  intro s hs
  obtain ⟨first, middle, hfirst, hclaim, hmiddle⟩ := ha s hs
  obtain ⟨rest, position, hrest, hitems, hlast⟩ := hmany _ hmiddle
  exact ⟨first :: rest, position, many_eq_of_ok hs hmiddle hlt hfirst hrest,
    ⟨first, rest, rfl, hclaim, hitems⟩, hlast⟩

private theorem Yields.many1 {claim : List α → Prop}
    (hmany : (Step.many a).Yields tokens indent view next claim)
    (hne : ∀ items, claim items → items ≠ []) :
    (Step.many1 a).Yields tokens indent view next claim := by
  intro s hs
  obtain ⟨items, position, heq, hclaim, hnext⟩ := hmany s hs
  have hempty : items.isEmpty = false := by simpa using hne items hclaim
  exact ⟨items, position, by
    simp only [Step.many1, Step.atomic, Step.bind, heq, hempty, Bool.false_eq_true, if_false,
      Step.succeed], hclaim, hnext⟩

/-- A step whose items are wanted yields them if there is one. -/
theorem Yields.nonEmpty {a : Step (List α)} {claim : List α → Prop} (what : String)
    (ha : a.Yields tokens indent view next claim) (hne : ∀ items, claim items → items ≠ []) :
    (Step.nonEmpty what a).Yields tokens indent view next claim := by
  intro s hs
  obtain ⟨items, position, heq, hclaim, hnext⟩ := ha s hs
  have hempty : items.isEmpty = false := by simpa using hne items hclaim
  exact ⟨items, position, by
    simp only [Step.nonEmpty, Step.bind, heq, hempty, Bool.false_eq_true, if_false, Step.succeed],
    hclaim, hnext⟩

/-! ### Chains -/

/-- What is read at the head, joined with each of the things that come next. -/
def chained (head : Step α) (step : Step β) (join : α → β → α) : Step α :=
  mapOutcome (.map fun (first, items) ↦ items.foldl join first) (seq head (many step))

variable (tokens) in
/-- At the second view the whole stands with a value of which the claim holds, and with which
whatever comes next is joined. -/
def Reaches (whole : Step α) (step : Step β) (join : α → β → α) (indent : Nat) (view next : View)
    (claim : α → Prop) : Prop :=
  ∀ (last : View) (items : List β → Prop), (many step).Yields tokens indent next last items →
    whole.Yields tokens indent view last fun found ↦
      ∃ first rest, found = rest.foldl join first ∧ claim first ∧ items rest

section Chains

variable {whole : Step α} {step : Step β} {join : α → β → α}

/-- What begins a chain reaches it. -/
theorem Yields.reaches (h : a.Yields tokens indent view next claim) (step : Step β)
    (join : α → β → α) : Reaches tokens (chained a step join) step join indent view next claim :=
  fun _ _ hmany ↦ (h.seq hmany).map fun (first, rest) hclaims ↦
    ⟨first, rest, rfl, hclaims.1, hclaims.2⟩

/-- A chain that is reached is reached with one more item. -/
theorem Reaches.then {joined : α → Prop} (h : Reaches tokens whole step join indent view next claim)
    (hnext : step.Yields tokens indent next last claim')
    (hlt : last.tokens.length < next.tokens.length)
    (hjoin : ∀ first item, claim first → claim' item → joined (join first item)) :
    Reaches tokens whole step join indent view last joined := by
  intro final items hmany
  refine (h final _ (hnext.many_cons hlt hmany)).mono ?_
  rintro _ ⟨first, _, rfl, hfirst, item, rest, rfl, hitem, hrest⟩
  exact ⟨join first item, rest, rfl, hjoin first item hfirst hitem, hrest⟩

/-- The chain ends where nothing comes next. -/
theorem Reaches.yields (h : Reaches tokens whole step join indent view next claim)
    (hnext : step.Declines tokens indent next) : whole.Yields tokens indent view next claim := by
  refine (h next _ hnext.many).mono ?_
  rintro _ ⟨first, _, rfl, hclaim, rfl⟩
  exact hclaim

end Chains

/-! ### Blocks -/

/-- A line end is read. -/
theorem yields_lineEnd {ended : Bool} {token : Token} (rest : List Token)
    (hkind : token.kind = .endOfLine) (indent : Nat) :
    (Step.token .endOfLine).Yields tokens indent ⟨ended, token :: rest⟩ ⟨true, rest⟩
    fun _ ↦ True := by
  have htoken : (Step.token .endOfLine).Yields tokens indent ⟨ended, token :: rest⟩
      (.behind token rest) (· = token) := yields_token rfl hkind indent
  rw [View.behind_of_endOfLine hkind] at htoken
  exact htoken.mono fun _ _ ↦ trivial

/-- Line ends are read up to what ends no line. -/
theorem yields_lineEnds (hskips : view.Skips next) (h : next.ahead ≠ .endOfLine) (indent : Nat) :
    (Step.many (Step.token .endOfLine)).Yields tokens indent view next fun _ ↦ True := by
  induction hskips with
  | refl => exact (declines_token h indent).many.mono fun _ _ ↦ trivial
  | cons hkind _ ih =>
    exact ((yields_lineEnd _ hkind indent).many_cons (Nat.lt_succ_self _) (ih h)).mono
      fun _ _ ↦ trivial

/-- A line break is at least one line end. -/
theorem yields_lineBreak (hbreaks : view.Breaks next) (h : next.ahead ≠ .endOfLine) (indent : Nat) :
    (Step.many1 (Step.token .endOfLine)).Yields tokens indent view next fun _ ↦ True := by
  cases hbreaks with
  | mk hkind hskips =>
    refine Yields.mono (Yields.many1 ((yields_lineEnd _ hkind indent).many_cons (Nat.lt_succ_self _)
      (yields_lineEnds hskips h indent)) ?_) fun _ _ ↦ trivial
    rintro _ ⟨first, rest, rfl, -⟩
    exact List.cons_ne_nil _ _

/-- An item and the line ends behind it make a line. -/
theorem Yields.line (ha : a.Yields tokens indent view next claim) (hskips : next.Skips last)
    (h : last.ahead ≠ .endOfLine) : (Step.line a).Yields tokens indent view last claim :=
  ha.skip (yields_lineEnds hskips h indent)

variable (tokens) in
/-- The lines of a column are answered, with any number of attempts that is enough for the tokens
that are left. -/
def YieldsLines (column : Nat) (locate : α → Location) (line : Step α) (view next : View)
    (claim : List α → Prop) : Prop :=
  ∀ s : State, s.Faces ⟨tokens, false⟩ column view → ∀ allowed, view.tokens.length < allowed →
    ∃ items position, aligned column locate line allowed ⟨tokens, false⟩ s =
        .ok (.ok items, s.moveTo position) ∧ claim items ∧
      (s.moveTo position).Faces ⟨tokens, false⟩ column next

/-- Lines are read with whatever follows from what they are read with. -/
theorem YieldsLines.mono {column : Nat} {locate : α → Location} {line : Step α}
    {claim weaker : List α → Prop} (h : YieldsLines tokens column locate line view next claim)
    (hweaker : ∀ items, claim items → weaker items) :
    YieldsLines tokens column locate line view next weaker := by
  intro s hs allowed hallowed
  obtain ⟨items, position, hread, hclaim, hstop⟩ := h s hs allowed hallowed
  exact ⟨items, position, hread, hweaker items hclaim, hstop⟩

/-- No line is read where the column is another one. -/
theorem yieldsLines_nil {column : Nat} (h : view.column? ≠ some column) (locate : α → Location)
    (line : Step α) : YieldsLines tokens column locate line view view (· = []) := by
  intro s hs allowed hallowed
  obtain ⟨allowed, rfl⟩ := Nat.exists_eq_add_of_lt (Nat.zero_lt_of_lt hallowed)
  refine ⟨[], s.position, ?_, rfl, hs⟩
  simp only [aligned, hs.column_current, ne_eq, h, not_false_eq_true, if_true]
  rfl

/-- One more line is read before others in its column. -/
theorem Yields.lines_cons {column : Nat} {locate : α → Location} {claims : List α → Prop}
    (ha : a.Yields tokens column view next claim) (hcolumn : view.column? = some column)
    (hlocation : ∀ found, claim found → (locate found).isGenerated = false)
    (hlt : next.tokens.length < view.tokens.length)
    (hlines : YieldsLines tokens column locate a next last claims) :
    YieldsLines tokens column locate a view last fun found ↦
      ∃ first rest, found = first :: rest ∧ claim first ∧ claims rest := by
  intro s hs allowed hallowed
  obtain ⟨allowed, rfl⟩ := Nat.exists_eq_add_of_lt (Nat.zero_lt_of_lt hallowed)
  obtain ⟨first, middle, hfirst, hclaim, hmiddle⟩ := ha s hs
  obtain ⟨rest, position, hrest, hclaims, hlast⟩ := hlines _ hmiddle (0 + allowed) (by omega)
  refine ⟨first :: rest, position, ?_, ⟨first, rest, rfl, hclaim, hclaims⟩, hlast⟩
  simp only [aligned, hs.column_current, hcolumn, ne_eq, not_true_eq_false, if_false, hfirst,
    hlocation first hclaim, Bool.false_eq_true]
  rw [Step.mapOutcome, hrest]
  rfl

/-- A block that is deeper than the indent is read with its lines. -/
theorem YieldsLines.block {inside : View} {column : Nat} {locate : α → Location} {item : Step α}
    {claims : List α → Prop}
    (hlines : YieldsLines tokens column locate (line item) inside next claims)
    (hskips : view.Skips inside) (hline : inside.ahead ≠ .endOfLine)
    (hinput : inside.ahead ≠ .endOfInput) (hcolumn : inside.column? = some column)
    (hdeeper : indent < column) (hne : ∀ items, claims items → items ≠ []) :
    (Step.block locate item).Yields tokens indent view next claims := by
  intro s hs
  have hmoved := hs.skipped hskips hline
  have hkind := hmoved.kind_current
  have hplace := hmoved.column_current
  obtain ⟨items, position, hread, hclaims, hnext⟩ := hlines
    ((s.moveTo (s.position + Input.lineEnds ⟨tokens, false⟩ s.position)).openBlock column)
    ⟨rfl, hmoved.tokens, hmoved.ended⟩ (inside.tokens.length + 1) (Nat.lt_succ_self _)
  rw [← hmoved.attempts] at hread
  simp only [State.current, State.position_moveTo] at hkind hplace hread
  have hinside : ¬ column ≤ s.indent := by
    rw [hs.indent]
    omega
  rw [← hkind] at hinput
  rw [hcolumn] at hplace
  obtain ⟨first, rest, rfl⟩ := List.exists_cons_of_ne_nil (hne items hclaims)
  refine ⟨first :: rest, position, ?_, hclaims, hs.indent, hnext.tokens, hnext.ended⟩
  simp only [Step.block, if_neg hinput, hplace, if_neg hinside, hread]
  rfl

end Step

end Offside.Packrat
