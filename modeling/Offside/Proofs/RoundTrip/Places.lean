import Offside.Proofs.RoundTrip.Leaves

/-!
# The places of expressions

A place asks for a rank, and has a parser (`place`). What the parser of a tighter place reads, that
of a looser one reads as well if nothing follows that goes on with it (`Follows`, `yields_looser`).
Where operands chain, a place is reached with a value that whatever comes next is joined to
(`ReachesAt`).
-/

namespace Offside

open Packrat

/-- Behind an expression of the rank, a token of the kind on the same line goes on with it. -/
def TokenKind.continuesAt (rank : Nat) : TokenKind → Bool
  | .period => rank ≤ 10
  | .star | .slash | .doubleSlash => rank ≤ 8
  | .plus | .minus => rank ≤ 7
  | .less | .lessOrEqual | .greater | .greaterOrEqual => rank ≤ 6
  | .equal | .notEqual => rank ≤ 5
  | .kwAnd => rank ≤ 4
  | .kwOr => rank ≤ 3
  | .kwXor => rank ≤ 2
  | kind => rank ≤ 1 && kind.beginsAt 1

private theorem TokenKind.continuesAt_mono {kind : TokenKind} {rank tighter : Nat}
    (hle : rank ≤ tighter)
    (h : kind.continuesAt rank = false) : kind.continuesAt tighter = false := by
  have hmono {bound : Nat} (h : decide (rank ≤ bound) = false) :
    decide (tighter ≤ bound) = false := by
    rw [decide_eq_false_iff_not] at h ⊢
    omega
  cases kind with
  | period | star | slash | doubleSlash | plus | minus | less | lessOrEqual | greater
  | greaterOrEqual | equal | notEqual | kwAnd | kwOr | kwXor => exact hmono h
  | _ =>
    unfold continuesAt at h ⊢
    rw [Bool.and_eq_false_iff] at h ⊢
    exact h.imp_left hmono

/-- An operator goes on with what is at least as tight as its level asks for. -/
theorem BinaryOperator.continuesAt_token (operator : BinaryOperator) (rank : Nat) :
    operator.token.continuesAt rank = decide (rank ≤ operator.level.precedence) := by
  cases operator <;> rfl

private theorem TokenKind.not_beginsAt_of_not_continuesAt {kind : TokenKind}
    (h : kind.continuesAt 1 = false) : kind.beginsAt 1 = false := by
  cases kind <;> first | rfl | cases h

/-- A block that is deeper than the column ends before the view. -/
structure Packrat.View.Dedents (view : View) (column : Nat) : Prop where
  lineEnd : view.ahead ≠ .endOfLine
  column : ∀ found, view.column? = some found → found ≤ column

/-- Nothing before the view goes on with an expression of the rank in a block of the column. -/
structure Packrat.View.Follows (view : View) (rank column : Nat) : Prop where
  line : view.ended = false → view.ahead.continuesAt rank = false
  block : view.ended = true → view.Dedents column
  alternative : view.ended = true → view.ahead = .kwElse → view.column? ≠ some column

/-- What does not go on with an expression does not go on with a tighter one. -/
theorem Packrat.View.Follows.mono {view : View} {rank tighter column : Nat}
    (h : view.Follows rank column) (hle : rank ≤ tighter) : view.Follows tighter column :=
  ⟨fun hended ↦ TokenKind.continuesAt_mono hle (h.line hended), h.block, h.alternative⟩

/-- No expression goes on with the kind. -/
def TokenKind.stops : TokenKind → Bool
  | comma | colon | rightParen | rightBracket | rightBrace => true
  | _ => false

private theorem TokenKind.not_continuesAt_of_stops {kind : TokenKind} (h : kind.stops = true)
    (rank : Nat) :
    kind.continuesAt rank = false := by
  cases kind <;> first | (cases h; done) | exact Bool.and_false _

/-- On the line, only the next token matters. -/
theorem Packrat.View.follows_of_line {view : View} {rank : Nat} (hended : view.ended = false)
    (h : view.ahead.continuesAt rank = false) (column : Nat) : view.Follows rank column := by
  refine ⟨fun _ ↦ h, fun hline ↦ ?_, fun hline ↦ ?_⟩ <;>
  · rw [hended] at hline
    cases hline

/-- Commas and closing signs go on with nothing. -/
theorem Packrat.View.Separated.follows {view : View} {closing : TokenKind} {column : Nat}
    (h : view.Separated closing column) (hclosing : closing.stops = true) (rank : Nat) :
    view.Follows rank column := by
  have hstops : view.ahead.stops = true := by
    obtain hkind | hkind := h.kind
    · rw [hkind]
      rfl
    · rwa [hkind]
  refine ⟨fun _ ↦ TokenKind.not_continuesAt_of_stops hstops rank, fun hended ↦ ⟨?_, ?_⟩,
    fun _ helse ↦ ?_⟩
  · intro hline
    rw [hline] at hstops
    cases hstops
  · intro found hfound
    rw [h.column hended] at hfound
    cases hfound
    exact Nat.le_refl _
  · rw [helse] at hstops
    cases hstops

namespace Grammar

/-- The parser of the expressions of a rank. -/
def place : Nat → Parser Expression
  | 0 => .rule .expression
  | 1 => .rule .application
  | 2 => .rule .xor
  | 3 => .rule .or
  | 4 => .rule .and
  | 5 => .rule .equality
  | 6 => .rule .relation
  | 7 => .rule .additive
  | 8 => .rule .multiplicative
  | 9 => .rule .unary
  | 10 => .rule .property
  | _ => .rule .atom

/-- The place of a level is its rule. -/
theorem place_precedence (level : Level) : place level.precedence = levelRule level := by
  cases level <;> rfl

/-- The place above that of a level is that of its operands. -/
theorem place_operand (level : Level) : place (level.precedence + 1) = operandOf level := by
  cases level <;> rfl

/-- An operator of a level and its right operand. -/
def continuation (level : Level) : Parser (BinaryOperator × Expression) :=
  (operatorOf level).seq (operandOf level).commit

/-- A message on the line of its receiver. -/
def furtherMessage : Parser Expression := .sameLine (.rule .xor)

/-- A period on the line and the name of a property. -/
def furtherProperty : Parser (String × Location) :=
  (Parser.sameLine (.token .period)).skipLeft name.commit

section Places

variable {tokens : Array Token} {rank indent column : Nat} {view next : View}
  {claim : Expression → Prop} {level : Level}

/-! ### Chains of operands -/

variable (tokens) in
/-- Between the views stand operands of a level that chains, with its operators between them. -/
abbrev ReachesLevel (level : Level) (indent : Nat) (view next : View) (claim : Expression → Prop) :
    Prop :=
  Step.Reaches tokens (reader tokens (levelRule level)) (reader tokens (continuation level))
    (fun left item ↦ applied left item.1 item.2) indent view next claim

variable (tokens) in
/-- The place is reached with an expression of which the claim holds; where expressions chain,
whatever comes next is joined to it. -/
def ReachesAt (rank indent : Nat) (view next : View) (claim : Expression → Prop) : Prop :=
  match rank with
  | 1 => Step.Reaches tokens (reader tokens (.rule .application)) (reader tokens furtherMessage)
      (fun receiver message ↦ .send receiver.location receiver message) indent view next claim
  | 2 => ReachesLevel tokens .xor indent view next claim
  | 3 => ReachesLevel tokens .or indent view next claim
  | 4 => ReachesLevel tokens .and indent view next claim
  | 7 => ReachesLevel tokens .additive indent view next claim
  | 8 => ReachesLevel tokens .multiplicative indent view next claim
  | 10 => Step.Reaches tokens (reader tokens (.rule .property)) (reader tokens furtherProperty)
      (fun root item ↦ .property root.location root item.1) indent view next claim
  | rank => (reader tokens (place rank)).Yields tokens indent view next claim

/-- Expressions of the rank chain: what comes next is joined to any number of them. -/
def chainsAt : Nat → Bool
  | 1 | 2 | 3 | 4 | 7 | 8 | 10 => true
  | _ => false

/-- The places that chain are those of the levels that do. -/
theorem chainsAt_precedence (level : Level) : chainsAt level.precedence = level.chains := by
  cases level <;> rfl

/-- The place of a level that chains is reached as the level is. -/
theorem reachesAt_precedence (h : level.chains = true) :
    ReachesAt tokens level.precedence indent view next claim ↔
      ReachesLevel tokens level indent view next claim := by
  cases level <;> first | (cases h; done) | exact .rfl

/-- Where expressions do not chain, nothing is joined. -/
theorem reachesAt_of_not_chainsAt (h : chainsAt rank = false) :
    ReachesAt tokens rank indent view next claim ↔
      (reader tokens (place rank)).Yields tokens indent view next claim := by
  match rank with
  | 0 | 5 | 6 | 9 | _ + 11 => exact .rfl
  | 1 | 2 | 3 | 4 | 7 | 8 | 10 => cases h

private theorem refuses_operators {kind : TokenKind} {operators : List BinaryOperator}
    (h : ∀ operator ∈ operators, kind ≠ operator.token) :
    (Parser.choice (operators.map fun operator ↦
      (Parser.token operator.token).map fun _ ↦ operator)).Refuses (fun _ ↦ False) kind := by
  induction operators with
  | nil => trivial
  | cons operator operators ih =>
    rw [List.forall_mem_cons] at h
    exact ⟨h.1, ih h.2⟩

/-- Operators of other levels do not go on with a level. -/
theorem declines_operatorOf_of_ne (h : next.ended = false →
    ∀ operator ∈ level.operators, next.ahead ≠ operator.token) (indent : Nat) :
    (reader tokens (operatorOf level)).Declines tokens indent next :=
  Step.declines_sameLine fun hended ↦ declines_of_refuses rfl (refuses_operators (h hended))

private theorem declines_operatorOf (h : next.Follows level.precedence column) (indent : Nat) :
    (reader tokens (operatorOf level)).Declines tokens indent next := by
  refine declines_operatorOf_of_ne (fun hended operator hmem htoken ↦ ?_) indent
  have hcontinues := h.line hended
  have hlevel := (operator.mem_operators_iff level).1 hmem
  rw [htoken, operator.continuesAt_token, hlevel, decide_eq_false_iff_not] at hcontinues
  exact hcontinues (Nat.le_refl _)

private theorem declines_continuation (h : next.Follows level.precedence column) (indent : Nat) :
    (reader tokens (continuation level)).Declines tokens indent next :=
  (declines_operatorOf h indent).seq _

private theorem declines_furtherMessage (h : next.Follows 1 column) (indent : Nat) :
    (reader tokens furtherMessage).Declines tokens indent next :=
  Step.declines_sameLine fun hended ↦
    declines_rule (TokenKind.not_beginsAt_of_not_continuesAt (h.line hended))

private theorem declines_furtherProperty (h : next.Follows 10 column) (indent : Nat) :
    (reader tokens furtherProperty).Declines tokens indent next := by
  refine ((Step.declines_sameLine fun hended ↦ Step.declines_token ?_ indent).seq _).map _
  intro hperiod
  have hcontinues := h.line hended
  rw [hperiod] at hcontinues
  cases hcontinues

/-- What is reached is read if nothing goes on with it. -/
theorem ReachesAt.yields (h : ReachesAt tokens rank indent view next claim)
    (hnext : next.Follows rank column) :
    (reader tokens (place rank)).Yields tokens indent view next claim := by
  match rank, h, hnext with
  | 0, h, _ | 5, h, _ | 6, h, _ | 9, h, _ | _ + 11, h, _ => exact h
  | 1, h, hnext => exact Step.Reaches.yields h (declines_furtherMessage hnext indent)
  | 2, h, hnext | 3, h, hnext | 4, h, hnext | 7, h, hnext | 8, h, hnext =>
    exact Step.Reaches.yields h (declines_continuation hnext indent)
  | 10, h, hnext => exact Step.Reaches.yields h (declines_furtherProperty hnext indent)

/-! ### From tighter places to looser ones -/

/-- An operand of a level that chains begins a chain. -/
theorem reachesLevel_of_operand (hchains : level.chains = true)
    (h : (reader tokens (operandOf level)).Yields tokens indent view next claim) :
    ReachesLevel tokens level indent view next claim := by
  intro last items hmany
  have hchain := (h.reaches (reader tokens (continuation level))
    (fun left item ↦ applied left item.1 item.2)) last items hmany
  cases level with
  | equality | relation => cases hchains
  | _ => exact yields_rule hchain

/-- An operand alone is an expression of its level. -/
theorem yields_level_of_operand (level : Level) (hchains : level.chains = false)
    (h : (reader tokens (operandOf level)).Yields tokens indent view next claim)
    (hnext : (reader tokens (continuation level)).Declines tokens indent next) :
    (reader tokens (levelRule level)).Yields tokens indent view next claim := by
  have halone := h.seq hnext.optional
  cases level with
  | equality | relation =>
    refine yields_rule (halone.map ?_)
    rintro ⟨left, _⟩ ⟨hleft, rfl⟩
    exact hleft
  | _ => cases hchains

/-- Where operands do not chain, an operator between two of them is an expression of its level. -/
theorem yields_level_of_pair {middle : View} {joined : Expression → Prop}
    {claim' : BinaryOperator × Expression → Prop} (level : Level) (hchains : level.chains = false)
    (h : (reader tokens (operandOf level)).Yields tokens indent view middle claim)
    (hitem : (reader tokens (continuation level)).Yields tokens indent middle next claim')
    (hjoin : ∀ left item, claim left → claim' item → joined (applied left item.1 item.2)) :
    (reader tokens (levelRule level)).Yields tokens indent view next joined := by
  have hpair := h.seq hitem.optional
  cases level with
  | equality | relation =>
    refine yields_rule (hpair.map ?_)
    rintro ⟨left, _⟩ ⟨hleft, item, rfl, hfound⟩
    exact hjoin left item hleft hfound
  | _ => cases hchains

/-- What a tighter place reads begins a chain. -/
theorem reachesAt_of_tighter (hchains : chainsAt rank = true)
    (h : (reader tokens (place (rank + 1))).Yields tokens indent view next claim) :
    ReachesAt tokens rank indent view next claim := by
  match rank, h with
  | 0, _ | 5, _ | 6, _ | 9, _ | _ + 11, _ => cases hchains
  | 1, h => exact fun last items hmany ↦ yields_rule ((h.reaches _ _) last items hmany)
  | 2, h | 3, h | 4, h | 7, h | 8, h => exact reachesLevel_of_operand rfl h
  | 10, h => exact fun last items hmany ↦ yields_rule ((h.reaches _ _) last items hmany)

-- What the next tighter place reads, the place reads as well.
private theorem yields_above (hrank : rank < 11)
    (h : (reader tokens (place (rank + 1))).Yields tokens indent view next claim)
    (hbegins : view.ahead.beginsAt (rank + 1) = true) (hnext : next.Follows rank column) :
    (reader tokens (place rank)).Yields tokens indent view next claim := by
  by_cases hchains : chainsAt rank = true
  · exact (reachesAt_of_tighter hchains h).yields hnext
  · match rank, h, hbegins, hnext with
    | 0, h, hbegins, _ =>
      have hconditional : (reader tokens (.rule .ifExpression)).Declines tokens indent view :=
        declines_rule (decide_eq_false fun hif ↦ by rw [hif] at hbegins; cases hbegins)
      exact yields_rule (hconditional.orElse_yields (h.orElse _))
    | 5, h, _, hnext =>
      exact yields_level_of_operand .equality rfl h (declines_continuation hnext indent)
    | 6, h, _, hnext =>
      exact yields_level_of_operand .relation rfl h (declines_continuation hnext indent)
    | 9, h, hbegins, _ =>
      have hsigned (operator : UnaryOperator) :
          (reader tokens (signed operator)).Declines tokens indent view := by
        refine ((Step.declines_token (fun hsign ↦ ?_) indent).seq _).map _
        rw [hsign] at hbegins
        cases operator <;> cases hbegins
      exact yields_rule ((hsigned .negate).orElse_yields
        ((hsigned .not).orElse_yields (h.orElse _)))
    | 1, _, _, _ | 2, _, _, _ | 3, _, _, _ | 4, _, _, _ | 7, _, _, _ | 8, _, _, _ | 10, _, _, _ =>
      exact absurd rfl hchains
    | _ + 11, _, _, _ => omega

/-- What a tighter place reads, a looser one reads as well. -/
theorem yields_looser {tighter : Nat} (hle : rank ≤ tighter) (htighter : tighter ≤ 11)
    (h : (reader tokens (place tighter)).Yields tokens indent view next claim)
    (hbegins : view.ahead.beginsAt tighter = true) (hnext : next.Follows rank column) :
    (reader tokens (place rank)).Yields tokens indent view next claim := by
  induction hle with
  | refl => exact h
  | @step tighter hle ih =>
    exact ih (Nat.le_of_succ_le htighter) (yields_above htighter h hbegins (hnext.mono hle))
      (TokenKind.beginsAt_mono (Nat.le_succ _) hbegins)

end Places

end Grammar

end Offside
