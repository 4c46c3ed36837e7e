import Offside.Proofs.Grammar.Remembering
import Offside.Proofs.Packrat.Reading

/-!
# What no rule begins with

A parser refuses a kind of token if every way through it begins with a token of another kind
(`Parser.Refuses`); before a token of that kind it fails recoverably. Each rule refuses all kinds
but those that its results begin with (`declines_rule`). `reader` is the meaning of a parser of the
grammar without memory, and a rule reads what its production reads (`yields_rule`).
-/

namespace Offside

open Packrat

/-- No way through the parser begins with a token of the kind, if none does through the given
rules. -/
def Packrat.Parser.Refuses (low : Rule → Prop) (kind : TokenKind) : {α : Type} → Parser α → Prop
  | _, token expected | _, value expected _ => kind ≠ expected
  | _, rule name => low name
  | _, sameLine inner | _, inBlockColumn inner | _, map _ inner | _, check _ inner =>
    inner.Refuses low kind
  | _, onKind choices => (choices kind).Refuses low kind
  | _, seq first _ => first.Refuses low kind
  | _, orElse first second => first.Refuses low kind ∧ second.Refuses low kind
  | _, fail _ => True
  | _, _ => False

open Step in
private theorem Packrat.Parser.Refuses.declines {tokens : Array Token} {low : Rule → Prop}
    {call : (rule : Rule) → Step rule.Result} {indent : Nat} {view : View}
    (hrules : ∀ rule, low rule → (call rule).Declines tokens indent view) {α : Type}
    {parser : Parser α} (h : parser.Refuses low view.ahead) :
    (parser.run call).Declines tokens indent view := by
  induction parser with
  | token => exact declines_token h indent
  | value _ read => exact declines_value h read indent
  | rule name => exact hrules name h
  | sameLine inner ih => exact declines_sameLine fun _ ↦ ih h
  | inBlockColumn inner ih => exact declines_inBlockColumn fun _ ↦ ih h
  | onKind choices ih => exact declines_onKind (ih _ h)
  | seq first second ih => exact (ih h).seq _
  | map f inner ih => exact (ih h).map f
  | check verdict inner ih => exact (ih h).check verdict
  | orElse first second ih ih' => exact (ih h.1).orElse (ih' h.2)
  | fail problem => exact declines_fail problem indent view
  | _ => exact h.elim

/-- A token of the kind may begin an expression of the rank: signs begin those that are no operands
of signs, and the word that opens a conditional begins whole expressions only. -/
def TokenKind.beginsAt (rank : Nat) : TokenKind → Bool
  | identifier | string | integer | float | boolean | character | leftParen | leftBracket
  | leftBrace | kwDo | kwNew => true
  | minus | exclamation => rank ≤ 9
  | kwIf => rank = 0
  | _ => false

/-- What may begin a tighter expression may begin a looser one. -/
theorem TokenKind.beginsAt_mono {kind : TokenKind} {rank tighter : Nat} (hle : rank ≤ tighter)
    (h : kind.beginsAt tighter = true) : kind.beginsAt rank = true := by
  cases kind with
  | minus | exclamation =>
    have hrank : tighter ≤ 9 := by simpa [beginsAt] using h
    simp only [beginsAt, decide_eq_true_eq]
    omega
  | kwIf =>
    have hrank : tighter = 0 := by simpa [beginsAt] using h
    simp only [beginsAt, decide_eq_true_eq]
    omega
  | _ => exact h

private theorem TokenKind.not_beginsAt {kind : TokenKind} {rank tighter : Nat}
    (hle : rank ≤ tighter)
    (h : kind.beginsAt rank = false) : kind.beginsAt tighter = false := by
  cases hbegins : kind.beginsAt tighter with
  | false => rfl
  | true =>
    rw [beginsAt_mono hle hbegins] at h
    cases h

namespace Grammar

/-- A token of the kind may begin what the rule reads. -/
def begins : Rule → TokenKind → Bool
  | .program, _ | .statementBlock, _ => true
  | .structDeclaration, kind => kind = .kwStruct
  | .structItem, kind | .memberDeclaration, kind | .handlerDeclaration, kind | .parameters, kind
  | .path, kind => kind = .identifier
  | .statement, kind => kind.beginsAt 0 || kind = .kwLet || kind = .kwFor || kind = .kwWhile
  | .expression, kind => kind.beginsAt 0
  | .ifExpression, kind => kind = .kwIf
  | .application, kind | .xor, kind | .or, kind | .and, kind | .equality, kind | .relation, kind
  | .additive, kind | .multiplicative, kind | .unary, kind => kind.beginsAt 1
  | .property, kind | .atom, kind => kind.beginsAt 10
  | .typeExpression, kind =>
    kind = .identifier || kind = .leftBracket || kind = .leftParen || kind = .doublePeriod
  | .pattern, kind => kind = .identifier || kind = .underscore || kind = .leftBracket ||
    kind = .leftParen || kind = .doublePeriod

-- A lower rule that the kind does not begin.
private def Lower (rule : Rule) (kind : TokenKind) (other : Rule) : Prop :=
  height other < height rule ∧ begins other kind = false

private theorem refuses_ladder {rule : Rule} {kind : TokenKind} (level : Level)
    (h : (operandOf level).Refuses (Lower rule kind) kind) :
    (ladder level).Refuses (Lower rule kind) kind := by
  unfold ladder operands
  split <;> exact h

private theorem refuses {rule : Rule} {kind : TokenKind} (h : begins rule kind = false) :
    (production rule).Refuses (Lower rule kind) kind := by
  have hne {expected : TokenKind} (hexpected : begins rule expected = true) : kind ≠ expected := by
    rintro rfl
    rw [h] at hexpected
    cases hexpected
  have hlower {other : Rule} (hother : height other < height rule)
      (hbegins : begins other kind = begins rule kind) : Lower rule kind other :=
    ⟨hother, hbegins.trans h⟩
  cases rule with
  | program | statementBlock => cases h
  | structDeclaration | memberDeclaration | handlerDeclaration | parameters | path | ifExpression =>
    exact hne rfl
  | structItem => exact ⟨hlower (by decide) rfl, hlower (by decide) rfl, trivial⟩
  | statement =>
    have hidentifier : kind ≠ .identifier := hne rfl
    simp only [begins, Bool.or_eq_false_iff] at h
    exact ⟨hne rfl, ⟨by decide, decide_eq_false hidentifier⟩, hne rfl, hne rfl,
      ⟨by decide, h.1.1.1⟩, trivial⟩
  | expression =>
    have hif : kind ≠ .kwIf := hne rfl
    exact ⟨⟨by decide, decide_eq_false hif⟩, ⟨by decide, TokenKind.not_beginsAt (by decide) h⟩,
      trivial⟩
  | application => exact hlower (by decide) rfl
  | xor | or | and | equality | relation | additive | multiplicative =>
    exact refuses_ladder _ (hlower (by decide) rfl)
  | unary =>
    exact ⟨hne rfl, hne rfl, ⟨by decide, TokenKind.not_beginsAt (by decide) h⟩, trivial⟩
  | property => exact hlower (by decide) rfl
  | atom =>
    exact ⟨hne rfl, hne rfl, hne rfl, hne rfl, hne rfl,
      ⟨hne rfl, hne rfl, hne rfl, hne rfl, hne rfl, hne rfl, trivial⟩, hne rfl, trivial⟩
  | pattern =>
    change Parser.Refuses _ kind (anyPattern)
    cases kind with
    | identifier | underscore | leftBracket | leftParen | doublePeriod => cases h
    | _ => trivial
  | typeExpression => exact ⟨hne rfl, hne rfl, hne rfl, hne rfl, trivial⟩

variable (tokens : Array Token)

/-- What a parser of the grammar reads, without memory. -/
abbrev reader {α : Type} (parser : Parser α) : Step α :=
  parser.run (call (depthBound ⟨tokens, false⟩))

variable {tokens} {indent : Nat} {view next : View}

/-- Before a token of a kind that it refuses, a parser fails recoverably. -/
theorem declines_of_refuses {α : Type} {parser : Parser α} {kind : TokenKind}
    (hview : view.ahead = kind) (h : parser.Refuses (fun _ ↦ False) kind) :
    (reader tokens parser).Declines tokens indent view :=
  Parser.Refuses.declines (fun _ hrule ↦ hrule.elim) (hview ▸ h)

/-- The first alternative that does not fail recoverably decides. -/
theorem yields_choice {α : Type} {parser : Parser α} {claim : α → Prop} (before : List (Parser α))
    {after : List (Parser α)}
    (hbefore : ∀ other ∈ before, (reader tokens other).Declines tokens indent view)
    (h : (reader tokens parser).Yields tokens indent view next claim) :
    (reader tokens (.choice (before ++ parser :: after))).Yields tokens indent view next claim := by
  induction before with
  | nil => exact h.orElse _
  | cons first before ih =>
    rw [List.forall_mem_cons] at hbefore
    exact hbefore.1.orElse_yields (ih hbefore.2)

/-- The alternative decides that does not refuse the next token, if those before it do. -/
theorem yields_choice_of_refuses {α : Type} {parser : Parser α} {claim : α → Prop}
    {kind : TokenKind} (hview : view.ahead = kind) (before : List (Parser α))
    {after : List (Parser α)} (hbefore : (Parser.choice before).Refuses (fun _ ↦ False) kind)
    (h : (reader tokens parser).Yields tokens indent view next claim) :
    (reader tokens (.choice (before ++ parser :: after))).Yields tokens indent view next claim := by
  induction before with
  | nil => exact h.orElse _
  | cons first before ih =>
    exact (declines_of_refuses hview hbefore.1).orElse_yields (ih hbefore.2)

/-- What a production yields, its rule yields. -/
theorem yields_rule {rule : Rule} {claim : rule.Result → Prop}
    (h : (reader tokens (production rule)).Yields tokens indent view next claim) :
    (reader tokens (.rule rule)).Yields tokens indent view next claim := by
  intro s hs
  obtain ⟨found, position, heq, hfound⟩ := h s hs
  exact ⟨found, position, (parse_rule tokens rule s).trans heq, hfound⟩

/-- What a rule yields of a row of tokens it answers at their start, with memory or without. -/
theorem answers_of_yields {row : List Token} {rule : Rule} {claim : rule.Result → Prop}
    (h : (reader row.toArray (.rule rule)).Yields row.toArray 0 ⟨false, row⟩ next claim)
    (memoize : Bool) :
    ∃ found stop, Answers ⟨row.toArray, memoize⟩ .start rule (.ok found) stop ∧ claim found ∧
      row.drop stop = next.tokens := by
  obtain ⟨found, stop, hanswer, hclaim, hnext⟩ := h .start ⟨rfl, rfl, rfl⟩
  exact ⟨found, stop, (answers_iff _ (sound_empty _)).2 hanswer, hclaim, hnext.tokens⟩

/-- Where its production fails recoverably, so does a rule. -/
theorem declines_rule_of_production {rule : Rule}
    (h : (reader tokens (production rule)).Declines tokens indent view) :
    (reader tokens (.rule rule)).Declines tokens indent view := by
  intro s hs
  obtain ⟨failure, position, heq⟩ := h s hs
  exact ⟨failure, position, (parse_rule tokens rule s).trans heq⟩

/-- Before a token that nothing of it begins with, a rule fails recoverably. -/
theorem declines_rule {rule : Rule} (h : begins rule view.ahead = false) :
    (reader tokens (.rule rule)).Declines tokens indent view := by
  induction hheight : height rule using Nat.strongRecOn generalizing rule with
  | ind n ih =>
    exact declines_rule_of_production ((refuses h).declines fun other ⟨hlower, hother⟩ ↦
      ih (height other) (hheight ▸ hlower) hother rfl)

/-- An assignment begins with a name. -/
theorem declines_assignment (h : view.ahead ≠ .identifier) :
    (reader tokens assignment).Declines tokens indent view := by
  have hpath : (reader tokens path).Declines tokens indent view :=
    declines_rule (decide_eq_false h)
  exact (((((hpath.seq _).map _).seq _).seq _).map _).map _

end Grammar

end Offside
