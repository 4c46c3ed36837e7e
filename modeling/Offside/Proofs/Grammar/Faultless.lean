import Offside.Packrat.Strict
import Offside.Proofs.Grammar.Remembering
import Offside.Proofs.Packrat.Faultless
import Offside.Proofs.Source.Span

/-!
# Source texts make no faults

Whatever the text of a file, its tokens are read without a cut that is off, and rules that run over
them, one after the other and from any positions, never fault (`faultless_of_ofSource`): no success
is passed on as a failure, no token lacks the value that is read from it, and nothing remembered for
a rule is a node of another family.
-/

namespace Offside.Grammar

open Packrat

/-- The meaning of a rule that passes failures on strictly, for a bounded depth of nested rules. -/
def strictCall : (depth : Nat) → (rule : Rule) → Step rule.Result
  | 0, _ => fun _ _ ↦ .error .exhausted
  | depth + 1, rule => .remembered rule (Strict.run (strictCall depth) (production rule))

/-- Runs a rule that passes failures on strictly. -/
def strictParse (rule : Rule) : Step rule.Result := fun input state ↦
  strictCall (depthBound input) rule input state

/-- The state behind rules that run one after the other, each from a position of its own. -/
def visit (input : Input) : State → List (Nat × Rule) → Except Fault State
  | state, [] => .ok state
  | state, (position, rule) :: rest =>
    match strictParse rule input (state.moveTo position) with
    | .error fault => .error fault
    | .ok (_, reached) => visit input reached rest

/-! ### Strict runs -/

private theorem strictCall_eq (depth : Nat) : strictCall depth = call depth := by
  induction depth with
  | zero => rfl
  | succ depth ih =>
    funext rule
    rw [strictCall, ih, Strict.run_eq]
    rfl

/-- No rule passes a success on as a failure. -/
theorem strictParse_eq (rule : Rule) : strictParse rule = parse (.rule rule) := by
  funext input state
  unfold strictParse
  rw [strictCall_eq]
  rfl

/-! ### Values that are asked for -/

attribute [local simp] Parser.Reads Parser.choice Parser.skip Parser.skipLeft Parser.commaSeparated
  TokenKind.Carries

private theorem reads_name : name.Reads := by
  rintro payload ⟨value, rfl⟩
  rfl

private theorem reads_literal : literal.Reads := by
  refine ⟨reads_name, ?_, ?_, ?_, ?_, ?_, trivial⟩
  all_goals
    rintro payload ⟨value, rfl⟩
    rfl

private theorem reads_ladder (level : Level) : (ladder level).Reads := by
  cases level <;>
    simp [ladder, operands, operatorOf, operandOf, levelRule, Level.chains, Level.operators]

/-- Each production asks for values only where the kind of the token carries one. -/
theorem reads_production (rule : Rule) : (production rule).Reads := by
  have hname := reads_name
  cases rule with
  | xor | or | and | equality | relation | additive | multiplicative => exact reads_ladder _
  | program => simp [production, program, lineEnds]
  | structDeclaration => simp [production, struct, hname]
  | structItem => simp [production, structItem]
  | memberDeclaration => simp [production, member, hname, typeExpr]
  | handlerDeclaration => simp [production, handler, hname, body, statementBlock]
  | parameters => simp [production, parameter, hname, typeExpr]
  | statement =>
    simp [production, anyStatement, binding, assignment, forEach, loop, expressionStatement, path,
      expression, pattern, body, statementBlock]
  | statementBlock => simp [production, statements, statement]
  | path => simp [production, anyPath, hname]
  | expression => exact ⟨trivial, trivial, trivial⟩
  | ifExpression =>
    simp [production, conditional, expression, body, statementBlock, elseIf, alignedElse]
  | application => simp [production, application]
  | unary => exact ⟨⟨trivial, trivial⟩, ⟨trivial, trivial⟩, trivial, trivial⟩
  | property => simp [production, propertyChain, hname]
  | atom =>
    refine ⟨?_, ?_, ?_, ?_, ?_, reads_literal, ?_, trivial⟩
    all_goals
      simp [doBlock, creation, message, tuple, list, grouped, hname, body, statementBlock, typeExpr,
        argument, expression]
  | pattern =>
    intro kind
    cases kind <;> simp [hname, listPattern, tuplePattern, variadicPattern, pattern]
  | typeExpression =>
    simp [production, anyType, namedType, hname, listType, tupleType, variadicType, typeArguments,
      typeExpr]

/-! ### Runs of rules -/

variable {tokens : Array Token}

-- Without memory, a rule at some depth can only run out of it.
private theorem call_faultless (h : Input.Carrying ⟨tokens, false⟩) (depth : Nat) (rule : Rule) :
    (call depth rule).Faultless ⟨tokens, false⟩ := by
  induction depth generalizing rule with
  | zero =>
    intro s fault hs
    cases hs
    rfl
  | succ depth ih =>
    intro s fault hs
    refine Parser.run_faultless h ih (reads_production rule) (s := s) ?_
    simpa [call, Step.remembered] using hs

/-- Over tokens that carry what their kinds say a rule answers, and what it remembers is sound. -/
theorem parse_ok (h : Input.Carrying ⟨tokens, false⟩) (memoize : Bool) (rule : Rule) {s : State}
    (hsound : Sound tokens s.table) :
    ∃ outcome reached, parse (.rule rule) ⟨tokens, memoize⟩ s = .ok (outcome, reached) ∧
      Sound tokens reached.table := by
  have hsettles := parse_settles tokens (grounded_rule tokens rule) s
  have hagree := parse_agrees tokens memoize (.rule rule) s s ⟨rfl, rfl, hsound⟩
  cases hslow : parse (.rule rule) ⟨tokens, false⟩ s with
  | error fault =>
    have hfault := call_faultless h _ rule hslow
    exact absurd (hfault ▸ hslow) hsettles
  | ok answer =>
    obtain ⟨outcome, reached⟩ := answer
    rw [hslow] at hagree
    obtain ⟨-, table, htable, hfast⟩ := hagree.of_ok
    exact ⟨outcome, _, hfast, htable⟩

/-- Rules that run one after the other all answer. -/
theorem visit_ok (h : Input.Carrying ⟨tokens, false⟩) (memoize : Bool) (visits : List (Nat × Rule))
    {s : State} (hsound : Sound tokens s.table) :
    ∃ reached, visit ⟨tokens, memoize⟩ s visits = .ok reached := by
  induction visits generalizing s with
  | nil => exact ⟨s, rfl⟩
  | cons next rest ih =>
    obtain ⟨position, rule⟩ := next
    obtain ⟨outcome, reached, hparse, hreached⟩ :=
      parse_ok h memoize rule (s := s.moveTo position) hsound
    unfold visit
    rw [strictParse_eq, hparse]
    exact ih hreached

/-- Reading a source by spans gives its tokens, so that no cut is off its characters and each line
is found among lines in order. Its tokens carry what their kinds say, and rules that run over them
one after the other, from any positions, never fault: they pass nothing on as a failure but
failures, and whether results are remembered or not, each of them answers. -/
theorem faultless_of_ofSource (file source : String) :
    Token.ofSpans? file source = some (Token.ofSource file source) ∧
      (LineIndex.ofText source).starts.Pairwise (· < ·) ∧
      (∀ rule, strictParse rule = parse (.rule rule)) ∧
      ∀ tokens, Token.ofSource file source = .ok tokens →
        (∀ token ∈ tokens, token.kind.Carries token.payload) ∧
        ∀ (memoize : Bool) (blocks : List Nat) (visits : List (Nat × Rule)),
          ∃ reached, visit ⟨tokens.toArray, memoize⟩ ⟨0, blocks, .empty⟩ visits = .ok reached := by
  refine ⟨Token.ofSpans?_eq file source, LineIndex.pairwise_starts source, strictParse_eq,
    fun tokens htokens ↦ ?_⟩
  have hcarries := Token.carries_of_ofSource htokens
  refine ⟨hcarries, fun memoize blocks visits ↦ ?_⟩
  refine visit_ok (fun token htoken ↦ ?_) memoize visits (sound_empty _)
  exact hcarries token (by simpa using htoken)

end Offside.Grammar
