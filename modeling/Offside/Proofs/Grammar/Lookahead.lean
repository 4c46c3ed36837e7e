import Offside.Proofs.Grammar.Rollback
import Offside.Proofs.Grammar.Counting
import Offside.Proofs.Grammar.Soundness
import Offside.Proofs.Packrat.Lookahead

/-!
# Rules by what lies ahead

No production looks behind the position where it starts: line ends are asked for behind what the
production has consumed itself (`looksAhead`). So a rule answers by the tokens ahead, up to the end
of the input, and by the column of the innermost block alone, wherever in an input it starts, and
whatever either run remembers (`parse_of_ahead`).
-/

namespace Offside.Grammar

open Packrat

attribute [local simp] Parser.LooksAhead Parser.Consumes Parser.choice Parser.skip Parser.skipLeft
  Parser.commaSeparated sure

private theorem looksAhead_ladder (level : Level) : (ladder level).LooksAhead sure False := by
  unfold ladder operands operatorOf
  cases level <;> simp [Level.chains, Level.operators, operandOf, levelRule]

/-- No production asks whether a line has ended before it starts. -/
theorem looksAhead (rule : Rule) : (production rule).LooksAhead sure False := by
  cases rule with
  | xor | or | and | equality | relation | additive | multiplicative => exact looksAhead_ladder _
  | pattern =>
    intro kind
    cases kind <;> simp [name, listPattern, tuplePattern, variadicPattern, pattern]
  | program | structDeclaration | structItem | memberDeclaration | handlerDeclaration
  | parameters =>
    simp [production, program, lineEnds, struct, structItem, member, handler, parameter, name,
      typeExpr, body, statementBlock]
  | statement | statementBlock | path =>
    simp [production, anyStatement, binding, assignment, forEach, loop, expressionStatement, path,
      expression, pattern, body, statementBlock, statements, statement, anyPath, name]
  | expression => exact ⟨trivial, trivial, trivial⟩
  | ifExpression | application | property =>
    simp [production, conditional, application, expression, body, statementBlock, elseIf,
      alignedElse, propertyChain, name]
  | unary => exact ⟨⟨trivial, trivial⟩, ⟨trivial, trivial⟩, trivial, trivial⟩
  | atom =>
    simp [production, atom, doBlock, creation, message, tuple, list, literal, nameExpression, name,
      stringLiteral, integerLiteral, floatLiteral, booleanLiteral, characterLiteral, grouped,
      body, statementBlock, typeExpr, argument, expression]
  | typeExpression =>
    simp [production, anyType, namedType, name, listType, tupleType, variadicType, typeArguments,
      typeExpr]

/-! ### Rules -/

section Rules

variable {tokens tokens' : Array Token}

private theorem run_prospective {α : Type} {depth : Nat}
    (hcall : ∀ rule, sure rule →
      (call depth rule).Prospective False ⟨tokens, false⟩ ⟨tokens', false⟩)
    {parser : Parser α} (hinside : parser.StaysInside sure)
    (hahead : parser.LooksAhead sure False) :
    (parser.run (call depth)).Prospective False ⟨tokens, false⟩ ⟨tokens', false⟩ :=
  Parser.run_prospective (call_agrees_self tokens depth) (fun _ _ _ _ ↦ call_moves tokens)
    Moves.within Moves.lt hcall hinside hahead

/-- Without memory, every rule but that for programs goes by what lies ahead. -/
theorem call_prospective (depth : Nat) {rule : Rule} (hrule : sure rule) :
    (call depth rule).Prospective False ⟨tokens, false⟩ ⟨tokens', false⟩ := by
  induction depth generalizing rule with
  | zero => exact fun _ _ _ ↦ .fault _
  | succ depth ih =>
    intro s t habreast
    have hrun := run_prospective (fun _ ↦ ih) (staysInside hrule) (looksAhead rule) s t habreast
    simpa [call, Step.remembered] using hrun

-- Without memory, every rule answers by what lies ahead. A program ends with the end of the input,
-- behind which nothing is read.
private theorem call_tied (depth : Nat) (rule : Rule) {s t : State}
    (habreast : Abreast False ⟨tokens, false⟩ ⟨tokens', false⟩ s t) :
    Tied False ⟨tokens, false⟩ s t (call depth rule ⟨tokens, false⟩ s)
      (call depth rule ⟨tokens', false⟩ t) := by
  by_cases hrule : sure rule
  · have htied := call_prospective depth hrule s t habreast
    revert htied
    generalize call depth rule ⟨tokens, false⟩ s = x, call depth rule ⟨tokens', false⟩ t = y
    rintro (fault | ⟨outcome, count, -⟩)
    · exact .fault fault
    · exact .answer outcome count False.elim
  · obtain rfl := not_not.1 hrule
    cases depth with
    | zero => exact .fault _
    | succ depth =>
      simp only [call, Step.remembered, Bool.false_eq_true, if_false]
      let items := lineEnds.skipLeft
        (.many ((Parser.rule .structDeclaration : Parser Struct).skip lineEnds))
      have hitems : (items.run (call depth)).Prospective False ⟨tokens, false⟩ ⟨tokens', false⟩ :=
        run_prospective (fun _ ↦ call_prospective depth)
          (by simp [items, lineEnds, Parser.StaysInside]) (by simp [items, lineEnds])
      refine Step.tied_mapOutcome _ (Step.tied_seq habreast
        (Step.prospective_here s t habreast) .inl fun s t habreast ↦ ?_)
      refine Step.tied_mapOutcome _ (Step.tied_seq habreast (hitems s t habreast) .inl
        fun s t habreast ↦ ?_)
      exact Step.tied_mapOutcome _ (Step.tied_token habreast .endOfInput False.elim)

-- A depth that suffices for two inputs at once gives the answers of both.
private theorem parse_tied (rule : Rule) {s t : State}
    (habreast : Abreast False ⟨tokens, false⟩ ⟨tokens', false⟩ s t) :
    Tied False ⟨tokens, false⟩ s t (parse (.rule rule) ⟨tokens, false⟩ s)
      (parse (.rule rule) ⟨tokens', false⟩ t) := by
  have hbound := room_lt_depthBound ⟨tokens, false⟩ rule s.position
  have hbound' := room_lt_depthBound ⟨tokens', false⟩ rule t.position
  have htied := call_tied (depthBound ⟨tokens, false⟩ + depthBound ⟨tokens', false⟩) rule habreast
  rwa [call_eq_parse tokens (call_settles tokens (Nat.lt_add_right _ hbound)),
    call_eq_parse tokens' (call_settles tokens' (Nat.lt_add_left _ hbound'))] at htied

end Rules

/-- Where the same tokens lie ahead, an end of the input among them, and the innermost blocks stand
in one column, a rule has the same outcome or lacks the same value, and consumes as many tokens,
whatever stands behind, whatever blocks enclose the innermost ones, and whatever earlier runs
remember. -/
theorem parse_of_ahead (tokens tokens' : Array Token) (memoize memoize' : Bool) (rule : Rule)
    {s t : State} (hahead : tokens.toList.drop s.position = tokens'.toList.drop t.position)
    (hend : ∃ token ∈ tokens.toList.drop s.position, token.kind = .endOfInput)
    (hindent : s.indent = t.indent) (hs : Filled ⟨tokens, memoize⟩ s.table)
    (ht : Filled ⟨tokens', memoize'⟩ t.table) :
    ∃ answer : Except Fault (Outcome rule.Result × Nat), answer ≠ .error .exhausted ∧
      (parse (.rule rule) ⟨tokens, memoize⟩ s).map
          (fun (outcome, reached) ↦ (outcome, reached.position)) =
        answer.map (fun (outcome, count) ↦ (outcome, s.position + count)) ∧
      (parse (.rule rule) ⟨tokens', memoize'⟩ t).map
          (fun (outcome, reached) ↦ (outcome, reached.position)) =
        answer.map (fun (outcome, count) ↦ (outcome, t.position + count)) := by
  have hsettles := parse_settles tokens (grounded_rule tokens rule) s
  have habreast : Abreast False ⟨tokens, false⟩ ⟨tokens', false⟩ s t :=
    ⟨hahead, hend, hindent, False.elim⟩
  have htied := parse_tied rule habreast
  rw [← parse_rule_position tokens memoize rule rfl rfl hs.sound,
    ← parse_rule_position tokens' memoize' rule rfl rfl ht.sound]
  unfold Step.Settles at hsettles
  revert hsettles htied
  generalize parse (.rule rule) ⟨tokens, false⟩ s = x, parse (.rule rule) ⟨tokens', false⟩ t = y
  rintro hne (fault | ⟨outcome, count, -⟩)
  · exact ⟨.error fault, fun h ↦ hne (congrArg _ (Except.error.inj h)), rfl, rfl⟩
  · exact ⟨.ok (outcome, count), nofun, rfl, rfl⟩

-- A name on a line of its own, and the end of the input.
private def nameAhead : List Token :=
  [⟨⟨.identifier, .text "a"⟩, .concrete "f" 2 3 6⟩, ⟨⟨.endOfLine, .none⟩, .concrete "f" 2 4 7⟩,
    ⟨⟨.endOfInput, .none⟩, .concrete "f" 3 1 8⟩]

-- A line end.
private def lineEndBehind : Token := ⟨⟨.endOfLine, .none⟩, .concrete "f" 1 4 3⟩

-- The answer is a success that ends at a position.
private def endsAt {α : Type} (position : Nat) : Except Fault (Outcome α × State) → Bool
  | .ok (.ok _, reached) => reached.position = position
  | _ => false

private theorem exists_of_endsAt {α : Type} {position : Nat}
    {answer : Except Fault (Outcome α × State)} (h : endsAt position answer = true) :
    ∃ found, answer.map (fun (outcome, reached) ↦ (outcome, reached.position)) =
      .ok (.ok found, position) := by
  obtain fault | ⟨found | failure | failure, reached⟩ := answer
  · cases h
  · have hposition : reached.position = position := of_decide_eq_true h
    exact ⟨found, hposition ▸ rfl⟩
  · cases h
  · cases h

/-- A statement is read alike behind a line end in a single block and behind nothing in a nested
one. -/
theorem parse_of_ahead_statement :
    ∃ found, (parse (.rule .statement) ⟨(lineEndBehind :: nameAhead).toArray, true⟩
          ⟨1, [3], .empty⟩).map (fun (outcome, reached) ↦ (outcome, reached.position)) =
        .ok (.ok found, 3) ∧
      (parse (.rule .statement) ⟨nameAhead.toArray, false⟩ ⟨0, [3, 1], .empty⟩).map
          (fun (outcome, reached) ↦ (outcome, reached.position)) = .ok (.ok found, 2) := by
  obtain ⟨found, hfound⟩ : ∃ found,
      (parse (.rule .statement) ⟨nameAhead.toArray, false⟩ ⟨0, [3, 1], .empty⟩).map
        (fun (outcome, reached) ↦ (outcome, reached.position)) = .ok (.ok found, 2) :=
    exists_of_endsAt (by decide +kernel)
  obtain ⟨answer, -, hbehind, hfirst⟩ := parse_of_ahead (lineEndBehind :: nameAhead).toArray
    nameAhead.toArray true false .statement (s := ⟨1, [3], .empty⟩) (t := ⟨0, [3, 1], .empty⟩) rfl
    ⟨nameAhead[2], by simp [nameAhead, lineEndBehind], rfl⟩ rfl .empty .empty
  rw [hfound] at hfirst
  obtain fault | ⟨outcome, count⟩ := answer
  · cases hfirst
  · simp only [Except.map, Except.ok.injEq, Prod.mk.injEq, Nat.zero_add] at hfirst
    obtain ⟨rfl, rfl⟩ := hfirst
    exact ⟨found, hbehind, hfound⟩

end Offside.Grammar
