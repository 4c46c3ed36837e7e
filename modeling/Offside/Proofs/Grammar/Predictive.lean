import Offside.Proofs.Grammar.Counting
import Offside.Proofs.Grammar.Faultless
import Offside.Proofs.Grammar.Refusal
import Offside.Proofs.Packrat.Commitment
import Offside.Proofs.Packrat.Spelling
import Offside.Proofs.Source.Payload

/-!
# Rules that the next token decides

A firm rule commits at its first token (`commits_production`), so that it fails recoverably only
before a token that nothing of it begins with. Of the other rules a member is committed by the two
colons behind its name, and a statement by the word that opens it: a conditional ends with the line
of its last statement, and there its own statement ends as well. On the tokens of a source text the
outcome of such a rule is a mismatch exactly where the next token says so
(`predictive_of_ofSource`).
-/

namespace Offside.Grammar

open Packrat

variable {tokens : Array Token}

/-! ### Rules that commit at their first token -/

/-- A rule that reports what is wrong behind its first token as fatal. -/
def IsFirm (rule : Rule) : Prop :=
  rule ≠ .memberDeclaration ∧ rule ≠ .statement ∧ rule ≠ .statementBlock ∧ rule ≠ .pattern

-- A lower rule that commits at the kind.
private def Committed (rule : Rule) (kind : TokenKind) (other : Rule) : Prop :=
  height other < height rule ∧ IsFirm other ∧ begins other kind = true

attribute [local simp] Parser.Commits Parser.choice Parser.skip Parser.skipLeft
  Parser.commaSeparated

private theorem commits_ladder {rule : Rule} {kind : TokenKind} (level : Level)
    (h : (operandOf level).Commits (Committed rule kind) kind) :
    (ladder level).Commits (Committed rule kind) kind := by
  unfold ladder operands
  split <;> exact ⟨h, fun _ ↦ trivial⟩

private theorem commits_production {rule : Rule} {kind : TokenKind} (hfirm : IsFirm rule)
    (h : begins rule kind = true) : (production rule).Commits (Committed rule kind) kind := by
  have hlower {other : Rule} (hother : height other < height rule) (hfirm : IsFirm other)
      (hbegins : begins other kind = begins rule kind) : Committed rule kind other :=
    ⟨hother, hfirm, hbegins.trans h⟩
  cases rule with
  | program => simp [production, program, lineEnds]
  | structDeclaration =>
    have hkind : kind = .kwStruct := by simpa [begins] using h
    simp [production, struct, hkind]
  | structItem =>
    exact .inr (.inl (hlower (by decide) (by simp [IsFirm]) rfl))
  | handlerDeclaration =>
    have hkind : kind = .identifier := by simpa [begins] using h
    simp [production, handler, name, body, hkind]
  | parameters =>
    have hkind : kind = .identifier := by simpa [begins] using h
    simp [production, parameter, name, hkind]
  | path =>
    have hkind : kind = .identifier := by simpa [begins] using h
    simp [production, anyPath, name, hkind]
  | ifExpression =>
    have hkind : kind = .kwIf := by simpa [begins] using h
    simp [production, conditional, body, hkind]
  | expression =>
    by_cases hif : kind = .kwIf
    · exact .inl ⟨by decide, by simp [IsFirm], decide_eq_true hif⟩
    · refine .inr (.inl ⟨by decide, by simp [IsFirm], ?_⟩)
      cases kind <;> first | exact h | exact absurd rfl hif
  | application => exact ⟨hlower (by decide) (by simp [IsFirm]) rfl, fun _ ↦ trivial⟩
  | xor | or | and | equality | relation | additive | multiplicative =>
    exact commits_ladder _ (hlower (by decide) (by simp [IsFirm]) rfl)
  | unary =>
    cases kind with
    | minus => exact .inl ⟨rfl, fun _ ↦ trivial⟩
    | exclamation => exact .inr (.inl ⟨rfl, fun _ ↦ trivial⟩)
    | _ => exact .inr (.inr (.inl ⟨by decide, by simp [IsFirm], h⟩))
  | property => exact ⟨hlower (by decide) (by simp [IsFirm]) rfl, fun _ ↦ trivial⟩
  | atom =>
    cases kind with
    | identifier | string | integer | float | boolean | character | leftParen | leftBracket
    | leftBrace | kwDo | kwNew =>
      simp [production, atom, doBlock, body, creation, message, name, tuple, list, literal,
        nameExpression, stringLiteral, integerLiteral, floatLiteral, booleanLiteral,
        characterLiteral, grouped]
    | _ => cases h
  | typeExpression =>
    cases kind with
    | identifier | leftBracket | leftParen | doublePeriod =>
      simp [production, anyType, namedType, name, listType, tupleType, variadicType]
    | _ => cases h
  | memberDeclaration | statement | statementBlock | pattern => simp [IsFirm] at hfirm

private theorem firmAt_of_production {rule : Rule} {s : State}
    (h : (reader tokens (production rule)).FirmAt ⟨tokens, false⟩ s) :
    (reader tokens (.rule rule)).FirmAt ⟨tokens, false⟩ s :=
  fun failure s' hs ↦ h failure s' ((parse_rule tokens rule s).symm.trans hs)

/-- Where it begins, a firm rule does not fail recoverably. -/
theorem firmAt_rule {rule : Rule} {s : State} (hfirm : IsFirm rule)
    (h : begins rule (s.current ⟨tokens, false⟩).kind = true) :
    (reader tokens (.rule rule)).FirmAt ⟨tokens, false⟩ s := by
  induction hheight : height rule using Nat.strongRecOn generalizing rule s with
  | ind n ih =>
    refine firmAt_of_production ((commits_production hfirm h).firmAt ?_ rfl)
    intro other ⟨hlower, hother, hbegins⟩ m hm
    exact ih _ (hheight ▸ hlower) hother (hm ▸ hbegins) rfl

/-! ### Members -/

-- A name behind which two colons stand is a member, or what is wrong with it is reported as fatal.
private theorem firmAt_member {s : State} (hname : (s.current ⟨tokens, false⟩).kind = .identifier)
    (hcolons : (Input.tokenAt ⟨tokens, false⟩ (s.position + 1)).kind = .doubleColon) :
    (reader tokens (.rule .memberDeclaration)).FirmAt ⟨tokens, false⟩ s := by
  have hhead : (reader tokens (name.skip (.token .doubleColon))).FirmAt ⟨tokens, false⟩ s := by
    refine ((Step.firmAt_value hname _).seq fun found m hfound ↦ ?_).map _
    obtain ⟨-, -, -, rfl⟩ := Step.value_eq_ok.1 hfound
    have hlt := Input.lt_size_of_kind ⟨tokens, false⟩ (p := s.position) (by
      rw [show Input.tokenAt _ s.position = s.current _ from rfl, hname]
      decide)
    refine Step.firmAt_token ?_
    rwa [State.current, State.position_moveTo, Input.after, if_pos hlt]
  have htype := hhead.seq fun _ _ _ ↦ Step.firmAt_commitAs (.stated "expected type")
    (reader tokens typeExpr)
  exact firmAt_of_production (((htype.seq fun _ _ _ ↦ Step.firmAt_commit _).map _).map _)

private theorem declines_member {s : State} (hcarrying : Input.Carrying ⟨tokens, false⟩)
    (hname : (s.current ⟨tokens, false⟩).kind = .identifier)
    (hcolons : (Input.tokenAt ⟨tokens, false⟩ (s.position + 1)).kind ≠ .doubleColon) :
    (reader tokens (.rule .memberDeclaration)).Declines tokens s.indent
      (s.view ⟨tokens, false⟩) := by
  have hs := s.faces_view ⟨tokens, false⟩
  generalize s.view ⟨tokens, false⟩ = view at hs
  obtain ⟨ended, _ | ⟨token, rest⟩⟩ := view
  · have hkind := hs.kind_current
    rw [hname] at hkind
    cases hkind
  have htoken : s.current ⟨tokens, false⟩ = token := hs.current rfl
  rw [htoken] at hname
  obtain ⟨value, hvalue⟩ : ∃ value, token.payload = .text value := by
    have hcarries := hcarrying.tokenAt s.position
    rwa [← State.current, htoken, hname] at hcarries
  have hbehind : (View.behind token rest).ahead ≠ .doubleColon :=
    (hs.moved [] rfl).kind_current ▸ hcolons
  have hread : (reader tokens name).Yields tokens s.indent ⟨ended, token :: rest⟩
      (.behind token rest) (· = (value, token.location)) :=
    Step.yields_value rfl hname (by rw [hvalue]) s.indent
  exact declines_rule_of_production
    ((((((hread.seq_declines (Step.declines_token hbehind _)).map _).seq _).seq _).map _).map _)

/-! ### What ends with a line -/

section Lines

variable {input : Input} {indent p q : Nat}

private theorem endsLineBefore_after (h : (input.tokenAt p).kind = .endOfLine) :
    input.EndsLineBefore (input.after p) := by
  have hlt := input.lt_size_of_kind (p := p) (by rw [h]; decide)
  rw [Input.after, if_pos hlt]
  exact (input.endsLineBefore_succ hlt).2 h

private theorem endsLineBefore_of_endOfStatement
    (h : (input.tokenAt p).kind = .endOfLine ∧ q = input.after p ∨ input.EndsLineBefore p ∧ q = p) :
    input.EndsLineBefore q := by
  obtain ⟨hkind, rfl⟩ | ⟨hends, rfl⟩ := h
  · exact endsLineBefore_after hkind
  · exact hends

private theorem endsLineBefore_of_lineEnds {ends : List Token}
    (h : Row (fun p q (found : Token) ↦ found.kind = .endOfLine ∧ found = input.tokenAt p ∧
      q = input.after p) p q ends) (hp : input.EndsLineBefore p) : input.EndsLineBefore q := by
  induction h with
  | nil => exact hp
  | cons hend _ ih =>
    obtain ⟨hkind, rfl, rfl⟩ := hend
    exact ih (endsLineBefore_after hkind)

private theorem endsLineBefore_of_row {α : Type} {Item : Nat → Nat → α → Prop} {items : List α}
    (h : Row Item p q items) (hne : items ≠ [])
    (hitem : ∀ {p q item}, Item p q item → input.EndsLineBefore q) : input.EndsLineBefore q := by
  induction h with
  | nil => exact absurd rfl hne
  | @cons _ _ _ _ items hfirst hrest ih =>
    cases hrest with
    | nil => exact hitem hfirst
    | cons => exact ih (List.cons_ne_nil _ _)

-- What holds statements ends with the line of the last of them.
private def ClosesLine (input : Input) (_ : Nat) (rule : Rule) (_ stop : Nat)
    (_ : rule.Result) : Prop :=
  rule = .statement ∨ rule = .statementBlock ∨ rule = .ifExpression → input.EndsLineBefore stop

private theorem endsLineBefore_of_body {found : Block}
    (h : body.Accepts input (ClosesLine input) indent p q found) : input.EndsLineBefore q := by
  obtain ⟨_, ⟨_, -, hstatements⟩, -⟩ := h
  exact hstatements (.inr (.inl rfl))

private theorem endsLineBefore_of_statement {found : Statement}
    (h : anyStatement.Accepts input (ClosesLine input) indent p q found) :
    input.EndsLineBefore q := by
  obtain h | h | h | h | h | h := h
  · obtain ⟨_, ⟨_, ⟨_, -, hend⟩, -⟩, -⟩ := h
    exact endsLineBefore_of_endOfStatement hend
  · obtain ⟨_, ⟨_, ⟨_, -, hend⟩, -⟩, -⟩ := h
    exact endsLineBefore_of_endOfStatement hend
  · obtain ⟨_, ⟨_, -, hbody⟩, -⟩ := h
    exact endsLineBefore_of_body hbody
  · obtain ⟨_, ⟨_, -, hbody⟩, -⟩ := h
    exact endsLineBefore_of_body hbody
  · obtain ⟨_, ⟨_, ⟨_, -, hend⟩, -⟩, -⟩ := h
    exact endsLineBefore_of_endOfStatement hend
  · exact h.elim

private theorem endsLineBefore_of_statements {found : List Statement}
    (h : statements.Accepts input (ClosesLine input) indent p q found) :
    input.EndsLineBefore q := by
  obtain ⟨hne, ⟨rfl, -⟩ | ⟨_, -, hlines⟩⟩ := h
  · exact absurd rfl hne
  · refine endsLineBefore_of_row hlines hne ?_
    rintro _ _ _ ⟨-, -, _, _, hstatement, hends⟩
    exact endsLineBefore_of_lineEnds hends (hstatement (.inl rfl))

private theorem endsLineBefore_of_alternatives {found : List ElseIf}
    (h : Row (elseIf.Accepts input (ClosesLine input) indent) p q found)
    (hp : input.EndsLineBefore p) : input.EndsLineBefore q := by
  induction h with
  | nil => exact hp
  | cons hfirst _ ih =>
    obtain ⟨_, ⟨_, -, hbody⟩, -⟩ := hfirst
    exact ih (endsLineBefore_of_body hbody)

private theorem endsLineBefore_of_conditional {found : Expression}
    (h : conditional.Accepts input (ClosesLine input) indent p q found) :
    input.EndsLineBefore q := by
  obtain ⟨_, ⟨_, ⟨_, ⟨_, -, hbody⟩, halternatives⟩, hotherwise⟩, -⟩ := h
  have hbefore := endsLineBefore_of_alternatives halternatives (endsLineBefore_of_body hbody)
  obtain ⟨-, rfl⟩ | ⟨_, -, _, ⟨_, -, hlast⟩, -⟩ := hotherwise
  · exact hbefore
  · exact endsLineBefore_of_body hlast

end Lines

private theorem closesLine_of_accepts {input : Input} {indent p q : Nat} {rule : Rule}
    {found : rule.Result}
    (h : (production rule).Accepts input (ClosesLine input) indent p q found) :
    ClosesLine input indent rule p q found := by
  rintro (rfl | rfl | rfl)
  · exact endsLineBefore_of_statement h
  · exact endsLineBefore_of_statements h
  · exact endsLineBefore_of_conditional h

/-! ### Statements -/

-- Behind a conditional nothing is left to report of its statement.
private theorem firmAt_expressionStatement {s : State}
    (hif : (s.current ⟨tokens, false⟩).kind = .kwIf) :
    (reader tokens expressionStatement).FirmAt ⟨tokens, false⟩ s := by
  have hexpression : (reader tokens expression).FirmAt ⟨tokens, false⟩ s :=
    firmAt_rule (by simp [IsFirm]) (by rw [hif]; rfl)
  refine ((hexpression.seq fun found m hfound ↦ Step.firmAt_endOfStatement ?_).map _).map _
  have hchoice := (parse_rule tokens .expression s).symm.trans hfound
  obtain hconditional | ⟨failure, m', hconditional, -⟩ := Step.orElse_eq_ok.1 hchoice
  · exact call_induction tokens closesLine_of_accepts hconditional (.inr (.inr rfl))
  · have hfirm : (reader tokens (.rule .ifExpression)).FirmAt ⟨tokens, false⟩ s :=
      firmAt_rule (by simp [IsFirm]) (by rw [hif]; rfl)
    exact absurd hconditional (hfirm _ _)

private theorem commits_statement {kind : TokenKind}
    (h : kind = .kwLet ∨ kind = .kwFor ∨ kind = .kwWhile) :
    anyStatement.Commits (fun _ ↦ False) kind := by
  obtain rfl | rfl | rfl := h <;> simp [anyStatement, binding, assignment, forEach, loop, body]

private theorem firmAt_statement {s : State}
    (h : (s.current ⟨tokens, false⟩).kind ∈ [.kwLet, .kwFor, .kwWhile, .kwIf]) :
    (reader tokens (.rule .statement)).FirmAt ⟨tokens, false⟩ s := by
  apply firmAt_of_production
  simp only [List.mem_cons, List.not_mem_nil, or_false] at h
  obtain hlet | hfor | hwhile | hif := h
  · exact (commits_statement (.inl hlet)).firmAt (fun _ hfalse ↦ hfalse.elim) rfl
  · exact (commits_statement (.inr (.inl hfor))).firmAt (fun _ hfalse ↦ hfalse.elim) rfl
  · exact (commits_statement (.inr (.inr hwhile))).firmAt (fun _ hfalse ↦ hfalse.elim) rfl
  · -- The other alternatives are tried first, and each fails or decides.
    refine Step.firmAt_orElse fun m hm ↦ Step.firmAt_orElse fun m' hm' ↦
      Step.firmAt_orElse fun k hk ↦ Step.firmAt_orElse fun k' hk' ↦
        (firmAt_expressionStatement ?_).orElse
    rwa [State.current, hk', hk, hm', hm]

/-! ### What the next token decides -/

/-- The rule fails recoverably where the state stands. -/
def Mismatches (input : Input) (s : State) (rule : Rule) : Prop :=
  ∃ failure stop, Answers input s rule (.recoverable failure) stop

/-- The next token decides, for members together with the token behind it, whether a rule fails
recoverably; whatever else is wrong is fatal. -/
structure Predictive (input : Input) (s : State) : Prop where
  answers : ∀ rule, ∃ outcome stop, Answers input s rule outcome stop
  expression : Mismatches input s .expression ↔ (s.current input).kind ∉
    [.kwIf, .kwDo, .kwNew, .leftBrace, .leftBracket, .leftParen, .identifier, .string, .integer,
      .float, .boolean, .character, .minus, .exclamation]
  typeExpression : Mismatches input s .typeExpression ↔ (s.current input).kind ∉
    [.identifier, .leftBracket, .leftParen, .doublePeriod]
  path : Mismatches input s .path ↔ (s.current input).kind ≠ .identifier
  structItem : Mismatches input s .structItem ↔ (s.current input).kind ≠ .identifier
  handlerDeclaration :
    Mismatches input s .handlerDeclaration ↔ (s.current input).kind ≠ .identifier
  memberDeclaration : Mismatches input s .memberDeclaration ↔
    ¬ ((s.current input).kind = .identifier ∧
      (input.tokenAt (s.position + 1)).kind = .doubleColon)
  structDeclaration : Mismatches input s .structDeclaration ↔ (s.current input).kind ≠ .kwStruct
  statement : (s.current input).kind ∈ [.kwLet, .kwFor, .kwWhile, .kwIf] →
    ¬ Mismatches input s .statement
  program : ¬ Mismatches input s .program

-- What earlier runs remember has no say in whether a rule fails recoverably.
private theorem mismatches_iff {memoize : Bool} {s : State} {rule : Rule}
    (hs : Filled ⟨tokens, memoize⟩ s.table) : Mismatches ⟨tokens, memoize⟩ s rule ↔
      ¬ (reader tokens (.rule rule)).FirmAt ⟨tokens, false⟩ s := by
  unfold Mismatches Step.FirmAt
  simp only [answers_iff tokens hs.sound, not_forall, not_not]
  refine exists_congr fun failure ↦ ⟨fun ⟨stop, hstop⟩ ↦ ⟨_, hstop⟩, fun ⟨s', hs'⟩ ↦ ?_⟩
  rw [(call_agrees_self tokens _ rule).moveTo_eq hs'] at hs'
  exact ⟨_, hs'⟩

private theorem not_firmAt_of_declines {s : State} {rule : Rule}
    (h : (reader tokens (.rule rule)).Declines tokens s.indent (s.view ⟨tokens, false⟩)) :
    ¬ (reader tokens (.rule rule)).FirmAt ⟨tokens, false⟩ s := by
  obtain ⟨failure, position, hs⟩ := h s (s.faces_view _)
  exact fun hfirm ↦ hfirm failure _ hs

private theorem firmAt_iff {s : State} {rule : Rule} (hfirm : IsFirm rule) :
    (reader tokens (.rule rule)).FirmAt ⟨tokens, false⟩ s ↔
      begins rule (s.current ⟨tokens, false⟩).kind = true := by
  refine ⟨fun h ↦ ?_, firmAt_rule hfirm⟩
  rw [← Bool.not_eq_false, (s.faces_view ⟨tokens, false⟩).kind_current]
  exact fun hbegins ↦ not_firmAt_of_declines (declines_rule hbegins) h

private theorem firmAt_member_iff {s : State} (hcarrying : Input.Carrying ⟨tokens, false⟩) :
    (reader tokens (.rule .memberDeclaration)).FirmAt ⟨tokens, false⟩ s ↔
      (s.current ⟨tokens, false⟩).kind = .identifier ∧
        (Input.tokenAt ⟨tokens, false⟩ (s.position + 1)).kind = .doubleColon := by
  refine ⟨fun h ↦ ?_, fun ⟨hname, hcolons⟩ ↦ firmAt_member hname hcolons⟩
  have hname : (s.current ⟨tokens, false⟩).kind = .identifier := by
    by_contra hne
    rw [(s.faces_view ⟨tokens, false⟩).kind_current] at hne
    have hbegins : begins .memberDeclaration (s.view ⟨tokens, false⟩).ahead = false :=
      decide_eq_false hne
    exact not_firmAt_of_declines (declines_rule hbegins) h
  refine ⟨hname, ?_⟩
  by_contra hcolons
  exact not_firmAt_of_declines (declines_member hcarrying hname hcolons) h

/-- On the tokens of a source text, at any position, inside any blocks and with whatever earlier
runs remember, the next token decides whether a rule fails recoverably. -/
theorem predictive_of_ofSource {file source : String} {tokens : List Token}
    (htokens : Token.ofSource file source = .ok tokens) (memoize : Bool) {s : State}
    (hs : Filled ⟨tokens.toArray, memoize⟩ s.table) :
    Predictive ⟨tokens.toArray, memoize⟩ s := by
  have hcarrying : Input.Carrying ⟨tokens.toArray, false⟩ := fun token htoken ↦
    Token.carries_of_ofSource htokens token (by simpa using htoken)
  have hfirm {rule : Rule} (h : IsFirm rule) : Mismatches ⟨tokens.toArray, memoize⟩ s rule ↔
      begins rule (s.current ⟨tokens.toArray, memoize⟩).kind = false := by
    rw [mismatches_iff hs, firmAt_iff h, Bool.not_eq_true]
    rfl
  constructor
  · intro rule
    obtain ⟨outcome, s', hparse, -⟩ := parse_ok hcarrying memoize rule hs.sound
    exact ⟨outcome, s'.position, s', hparse, rfl⟩
  · rw [hfirm (by simp [IsFirm])]
    generalize (s.current _).kind = kind
    cases kind <;> decide
  · rw [hfirm (by simp [IsFirm])]
    generalize (s.current _).kind = kind
    cases kind <;> decide
  · rw [hfirm (by simp [IsFirm])]
    exact decide_eq_false_iff_not
  · rw [hfirm (by simp [IsFirm])]
    exact decide_eq_false_iff_not
  · rw [hfirm (by simp [IsFirm])]
    exact decide_eq_false_iff_not
  · rw [mismatches_iff hs, firmAt_member_iff hcarrying]
    rfl
  · rw [hfirm (by simp [IsFirm])]
    exact decide_eq_false_iff_not
  · rw [mismatches_iff hs, not_not]
    exact firmAt_statement
  · rw [hfirm (by simp [IsFirm])]
    exact nofun

-- The tokens of a member whose type is missing.
private def typelessTokens : List Token :=
  [⟨⟨.identifier, .text "a"⟩, .concrete "f" 1 1 0⟩, ⟨⟨.doubleColon, .none⟩, .concrete "f" 1 3 2⟩,
    ⟨⟨.integer, .integer 1⟩, .concrete "f" 1 6 5⟩, ⟨⟨.endOfInput, .none⟩, .concrete "f" 1 7 6⟩]

/-- Where a handler has been looked for in vain, a member without a type is no mismatch. -/
theorem predictive_of_ofSource_typeless :
    ∃ table, Token.ofSource "f" "a :: 1" = .ok typelessTokens ∧
      Filled ⟨typelessTokens.toArray, true⟩ table ∧ table.size = 1 ∧
      ¬ Mismatches ⟨typelessTokens.toArray, true⟩ ⟨0, [3], table⟩ .memberDeclaration := by
  obtain ⟨failure, s, hrun, hsize⟩ : ∃ failure s,
      parse (.rule .handlerDeclaration) ⟨typelessTokens.toArray, true⟩ ⟨0, [3], .empty⟩ =
        .ok (.fatal failure, s) ∧ s.table.size = 1 := ⟨_, _, rfl, rfl⟩
  have htokens : Token.ofSource "f" "a :: 1" = .ok typelessTokens := by decide +kernel
  have hfilled : Filled ⟨typelessTokens.toArray, true⟩ s.table := .run _ .empty hrun
  have hpredictive := predictive_of_ofSource htokens true (s := ⟨0, [3], s.table⟩) hfilled
  refine ⟨s.table, htokens, hfilled, hsize, ?_⟩
  rw [hpredictive.memberDeclaration, not_not]
  exact ⟨rfl, rfl⟩

end Offside.Grammar
