import Offside.Proofs.Packrat.Rollback
import Offside.Grammar.Productions

/-!
# Rollback of rules and composed parsers

Every rule puts the position back where it began when it fails recoverably, and all rules but that
for blocks of statements do so when they fail fatally. Tables that runs have filled remember nothing
else of failures (`Filled.restoring`), so that it makes no difference whether a failure is
remembered (`parse_failure_position`).
-/

namespace Offside.Grammar

open Packrat

attribute [local simp] Parser.Careful Parser.DemandsOf Parser.Contained Parser.choice Parser.skip
  Parser.skipLeft
  Parser.commaSeparated

private theorem careful_ladder (input : Input) (level : Level) : (ladder level).Careful input := by
  unfold ladder operands operatorOf
  cases level <;> simp [Level.chains, Level.operators, operandOf, levelRule]

/-- Every production is careful. -/
theorem careful_production (input : Input) (rule : Rule) : (production rule).Careful input := by
  cases rule with
  | xor | or | and | equality | relation | additive | multiplicative => exact careful_ladder input _
  | structDeclaration =>
    refine ⟨⟨⟨⟨trivial, trivial⟩, trivial⟩, trivial⟩, trivial, fun call s s' h ↦ ?_⟩
    exact Step.idles_block _ (Step.commitAs_eq_ok.1 h)
  | statementBlock => exact ⟨trivial, fun call ↦ Step.idles_block _⟩
  | pattern =>
    intro kind
    cases kind <;> simp [name, listPattern, tuplePattern, variadicPattern, pattern]
  | program | structItem | memberDeclaration | handlerDeclaration | parameters =>
    simp [production, program, lineEnds, structItem, member, handler, parameter, name, typeExpr,
      body, statementBlock]
  | statement | path =>
    simp [production, anyStatement, binding, assignment, forEach, loop, expressionStatement, path,
      expression, pattern, body, statementBlock, anyPath, name]
  | expression => exact ⟨trivial, trivial, trivial⟩
  | ifExpression | application =>
    simp [production, conditional, application, expression, body, statementBlock, elseIf,
      alignedElse]
  | unary => exact ⟨⟨trivial, trivial⟩, ⟨trivial, trivial⟩, trivial, trivial⟩
  | property => simp [production, propertyChain, name]
  | atom =>
    simp [production, atom, doBlock, creation, message, tuple, list, literal, nameExpression, name,
      stringLiteral, integerLiteral, floatLiteral, booleanLiteral, characterLiteral, grouped,
      body, statementBlock, typeExpr, argument, expression]
  | typeExpression =>
    simp [production, anyType, namedType, name, listType, tupleType, variadicType, typeArguments,
      typeExpr]

private theorem contained_ladder (level : Level) :
    (ladder level).Contained (· ≠ .statementBlock) := by
  unfold ladder operands
  split <;> trivial

/-- Only the rule for blocks of statements is a block itself. -/
theorem contained_production {rule : Rule} (h : rule ≠ .statementBlock) :
    (production rule).Contained (· ≠ .statementBlock) := by
  cases rule with
  | statementBlock => exact absurd rfl h
  | xor | or | and | equality | relation | additive | multiplicative => exact contained_ladder _
  | pattern =>
    intro kind
    cases kind <;> simp [name, listPattern, tuplePattern, variadicPattern, pattern]
  | program | structDeclaration | structItem | memberDeclaration | handlerDeclaration
  | parameters =>
    simp [production, program, struct, structItem, member, handler]
  | statement | path =>
    simp [production, anyStatement, binding, assignment, forEach, loop, expressionStatement,
      anyPath]
  | expression => exact ⟨nofun, nofun, trivial⟩
  | ifExpression | application => simp [production, conditional, application]
  | unary => exact ⟨trivial, trivial, nofun, trivial⟩
  | property => simp [production, propertyChain]
  | atom =>
    simp [production, atom, doBlock, creation, message, tuple, list, literal, nameExpression, name,
      stringLiteral, integerLiteral, floatLiteral, booleanLiteral, characterLiteral, grouped]
  | typeExpression =>
    simp [production, anyType, namedType, name, listType, tupleType, variadicType]

/-! ### Rules and tables -/

/-- A failed rule has put the position back where it began, unless it failed fatally in a block of
statements. -/
def Restored {α : Type} (rule : Rule) (start : Nat) : Outcome α → (stop : Nat) → Prop
  | .ok _, _ => True
  | .recoverable _, stop => stop = start
  | .fatal _, stop => rule ≠ .statementBlock → stop = start

/-- The failures that the table remembers have put the position back. -/
def Restoring (table : Table) : Prop :=
  ∀ (key : Key) (entry : Entry), table.entries[key]? = some entry →
    Restored key.rule key.position entry.outcome entry.stop

/-- The empty table restores positions, having no result. -/
theorem restoring_empty : Restoring .empty := by
  intro key entry h
  simp [Table.empty] at h

private theorem Restoring.lookup {table table' : Table} (h : Restoring table) {key : Key}
    {found : Option (Outcome key.rule.Result × Nat)}
    (hlookup : table.lookup key key.rule.family = .ok (found, table')) :
    Restoring table' ∧ ∀ outcome stop, found = some (outcome, stop) →
      Restored key.rule key.position outcome stop := by
  refine ⟨fun other entry hentry ↦ ?_, ?_⟩
  · rw [Table.entries_of_lookup hlookup] at hentry
    exact h other entry hentry
  · rintro outcome stop rfl
    have hrestored := h key _ (Table.getElem?_of_lookup hlookup)
    cases outcome <;> exact hrestored

private theorem Restoring.store {table : Table} (h : Restoring table) (key : Key)
    {outcome : Outcome key.rule.Result} {stop : Nat}
    (hrestored : Restored key.rule key.position outcome stop) :
    Restoring (table.store key outcome stop) := by
  intro other entry hentry
  rw [Table.getElem?_store] at hentry
  split at hentry
  · next hkey =>
    obtain ⟨rfl, -⟩ := hkey
    cases hentry
    cases outcome <;> exact hrestored
  · exact h other entry hentry

-- A production puts the position back if the rules inside do.
private theorem restored_run {input : Input} {call : (rule : Rule) → Step rule.Result}
    (hcall : ∀ rule s outcome s', call rule input s = .ok (outcome, s') → Restoring s.table →
      Restored rule s.position outcome s'.position ∧ Restoring s'.table)
    {rule : Rule} {s s' : State} {outcome : Outcome rule.Result}
    (h : (production rule).run call input s = .ok (outcome, s')) (hs : Restoring s.table) :
    Restored rule s.position outcome s'.position ∧ Restoring s'.table := by
  have hkeeps (rule : Rule) :
      (call rule).Keeps (fun s s' ↦ Restoring s.table → Restoring s'.table) input :=
    fun s s' outcome hs ht ↦ (hcall rule s outcome s' hs ht).2
  have hrewinds (rule : Rule) : (call rule).Rewinds Restoring input :=
    fun s s' failure ht hs ↦ (hcall rule s _ s' hs ht).1
  have hwithdraws (rule : Rule) (hrule : rule ≠ .statementBlock) :
      (call rule).Withdraws Restoring input :=
    fun s s' failure ht hs ↦ (hcall rule s _ s' hs ht).1 hrule
  have hcareful := careful_production input rule
  refine ⟨?_, (production rule).run_keeps (frame_table Restoring) hkeeps h hs⟩
  cases outcome with
  | ok found => trivial
  | recoverable failure => exact Parser.run_rewinds hkeeps hrewinds hcareful hs h
  | fatal failure =>
    intro hrule
    exact Parser.run_withdraws hkeeps hrewinds hwithdraws hcareful (contained_production hrule) hs h

/-- A rule puts the position back, whether its result is remembered or not, and its table remembers
only such results. -/
theorem call_restored {input : Input} (depth : Nat) (rule : Rule) (s : State)
    (outcome : Outcome rule.Result) (s' : State) (h : call depth rule input s = .ok (outcome, s'))
    (hs : Restoring s.table) :
    Restored rule s.position outcome s'.position ∧ Restoring s'.table := by
  induction depth generalizing rule s s' with
  | zero => cases h
  | succ depth ih =>
    unfold call Step.remembered at h
    dsimp only at h
    split at h
    · split at h
      · cases h
      · next hlookup =>
        cases h
        obtain ⟨htable, hrestored⟩ := hs.lookup hlookup
        exact ⟨hrestored _ _ rfl, htable⟩
      · next table hlookup =>
        have htable : Restoring { s with table }.table := (hs.lookup hlookup).1
        split at h
        · cases h
        · next hrun =>
          cases h
          obtain ⟨hrestored, hreached⟩ := restored_run ih hrun htable
          exact ⟨hrestored, hreached.store ⟨rule, s.position, s.indent⟩ hrestored⟩
    · exact restored_run ih h hs

/-- The tables that runs on an input fill one after the other, wherever each of them starts and
whatever blocks are open there. -/
inductive Filled (input : Input) : Table → Prop where
  | empty : Filled input .empty
  | run {α : Type} (parser : Parser α) {s s' : State} {outcome : Outcome α} :
      Filled input s.table → parse parser input s = .ok (outcome, s') → Filled input s'.table

/-- Tables that runs have filled remember no failure that has not put the position back. -/
theorem Filled.restoring {input : Input} {table : Table} (h : Filled input table) :
    Restoring table := by
  induction h with
  | empty => exact restoring_empty
  | run parser _ hrun ih =>
    exact parser.run_keeps (frame_table Restoring)
      (fun rule s s' outcome hs ht ↦ (call_restored _ rule s outcome s' hs ht).2) hrun ih

/-- A parser that demands items only of collections leaves the position when it fails recoverably,
and so does every rule but that for blocks of statements when it fails fatally; this holds at any
position, inside any blocks and with whatever earlier runs remember. -/
theorem parse_failure_position {input : Input} {s : State} (hfilled : Filled input s.table) :
    (∀ {α : Type} (parser : Parser α), parser.DemandsOf Parser.Collects →
      ∀ failure s', parse parser input s = .ok (.recoverable failure, s') →
        s'.position = s.position) ∧
    ∀ rule ≠ .statementBlock, ∀ failure s', parse (.rule rule) input s = .ok (.fatal failure, s') →
      s'.position = s.position := by
  have hs := hfilled.restoring
  constructor
  · intro α parser hdemands failure s' h
    exact Parser.run_rewinds
      (fun rule s s' outcome h ht ↦ (call_restored _ rule s outcome s' h ht).2)
      (fun rule s s' failure ht h ↦ (call_restored _ rule s _ s' h ht).1) hdemands.careful hs h
  · intro rule hrule failure s' h
    exact (call_restored _ rule s _ s' h hs).1 hrule

-- The tokens of a path with one property.
private def pathTokens : Input :=
  ⟨#[⟨⟨.identifier, .text "a"⟩, .concrete "f" 1 1 0⟩, ⟨⟨.period, .none⟩, .concrete "f" 1 2 1⟩,
    ⟨⟨.identifier, .text "b"⟩, .concrete "f" 1 3 2⟩, ⟨⟨.endOfInput, .none⟩, .concrete "f" 1 4 3⟩],
    true⟩

/-- Members are demanded where it is remembered that none begins. -/
theorem parse_failure_position_remembered :
    ∃ table failure s', Filled pathTokens table ∧
      parse (.nonEmpty "member" (.many (.rule .memberDeclaration))) pathTokens ⟨2, [4], table⟩ =
        .ok (.recoverable failure, s') ∧ s'.position = 2 := by
  have hdemands : (Parser.nonEmpty "member" (.many (.rule .memberDeclaration))).DemandsOf
      Parser.Collects := ⟨trivial, .many _⟩
  obtain ⟨failure, s, hfirst, failure', s', hrun⟩ : ∃ failure s,
      parse (.rule .memberDeclaration) pathTokens ⟨2, [4], .empty⟩ =
        .ok (.recoverable failure, s) ∧ ∃ failure' s',
      parse (.nonEmpty "member" (.many (.rule .memberDeclaration))) pathTokens ⟨2, [4], s.table⟩ =
        .ok (.recoverable failure', s') := ⟨_, _, rfl, _, _, rfl⟩
  have hfilled : Filled pathTokens s.table := .run _ .empty hfirst
  have hposition :=
    (parse_failure_position (s := ⟨2, [4], s.table⟩) hfilled).1 _ hdemands failure' s' hrun
  exact ⟨s.table, failure', s', hfilled, hrun, hposition⟩

end Offside.Grammar
