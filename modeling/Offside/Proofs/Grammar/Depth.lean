import Offside.Grammar.Productions
import Offside.Proofs.Packrat.Approximation
import Offside.Proofs.Packrat.Progress

/-!
# The depth of nested rules

No rule asks for itself before a token is consumed: `height` orders the rules so that a rule asks
only for lower ones at the position where it starts. So rules that are cut off where they begin
again under the key under which they are running are never cut off (`guardedCall_settles`). With one
token consumed at the latest when the order is exhausted, the depth that `parse` allows is never
reached (`call_settles`), and a greater depth changes no answer (`call_agrees_call_add`).
-/

namespace Offside.Grammar

open Packrat

/-- The height of a rule in the order of what rules ask for first. -/
def height : Rule → Nat
  | .path | .pattern | .typeExpression | .atom | .ifExpression | .memberDeclaration
  | .handlerDeclaration | .structDeclaration | .parameters => 0
  | .property | .structItem | .program => 1
  | .unary => 2
  | .multiplicative => 3
  | .additive => 4
  | .relation => 5
  | .equality => 6
  | .and => 7
  | .or => 8
  | .xor => 9
  | .application => 10
  | .expression => 11
  | .statement => 12
  | .statementBlock => 13

private theorem height_lt (rule : Rule) : height rule < Rule.all.length := by
  cases rule <;> decide

/-- The rules of which every success consumes a token; a program may be read where nothing is
left. -/
def sure (rule : Rule) : Prop := rule ≠ .program

/-- What is read of no token: a program behind the end, which is located nowhere. -/
def Vacant : (rule : Rule) → rule.Result → Prop
  | .program, found => (Program.location found).isGenerated = true
  | _, _ => False

/-- What a success of a rule says about its range: it runs forwards, and it holds a token unless the
result is vacant. -/
def Moves (input : Input) (_ : Nat) (rule : Rule) (start stop : Nat) (found : rule.Result) : Prop :=
  input.Within start stop ∧ (start = stop → Vacant rule found)

/-- What a rule moves over lies between its start and the end of the tokens. -/
theorem Moves.within {input : Input} {indent p q : Nat} {rule : Rule} {found : rule.Result}
    (h : Moves input indent rule p q found) : input.Within p q := h.1

/-- A rule that is sure to read something moves on. -/
theorem Moves.lt {input : Input} {indent p q : Nat} {rule : Rule} {found : rule.Result}
    (hsure : sure rule) (h : Moves input indent rule p q found) : p < q := by
  refine Nat.lt_of_le_of_ne h.1.1 fun heq ↦ ?_
  have hvacant := h.2 heq
  cases rule with
  | program => exact hsure rfl
  | _ => exact hvacant

attribute [local simp] Parser.StartsAmong Parser.Consumes Parser.Grounded Parser.choice Parser.skip
  Parser.skipLeft Parser.commaSeparated height sure

private theorem consumes_operandOf (level : Level) : (operandOf level).Consumes sure := by
  cases level <;> simp [operandOf, levelRule]

private theorem consumes_ladder (level : Level) : (ladder level).Consumes sure := by
  unfold ladder operands
  split <;> exact .inl (consumes_operandOf level)

private theorem startsAmong_ladder {low : Rule → Prop} (level : Level)
    (hlow : (operandOf level).StartsAmong sure low) : (ladder level).StartsAmong sure low := by
  unfold ladder operands
  split <;> exact ⟨hlow, .inl (consumes_operandOf level)⟩

private theorem grounded_ladder (input : Input) (level : Level) :
    (ladder level).Grounded input (Moves input) := by
  unfold ladder operands operatorOf
  cases level <;> simp [Level.chains, Level.operators, operandOf, levelRule]

/-- The shape of a production: before a token is consumed it asks only for rules lower than its own;
it consumes a token, but for a whole program and a block of statements; and its blocks hold items
that consume. -/
structure Shape (input : Input) (rule : Rule) : Prop where
  starts : (production rule).StartsAmong sure fun other ↦ height other < height rule
  consumes : rule ≠ .program → rule ≠ .statementBlock → (production rule).Consumes sure
  grounded : (production rule).Grounded input (Moves input)

private theorem shape (input : Input) (rule : Rule) : Shape input rule := by
  cases rule with
  | xor | or | and | equality | relation | additive | multiplicative =>
    exact ⟨startsAmong_ladder _ (by simp [operandOf, levelRule]), fun _ _ ↦ consumes_ladder _,
      grounded_ladder input _⟩
  | pattern =>
    constructor
    · intro kind
      cases kind <;> simp [name, listPattern, tuplePattern, variadicPattern]
    · intro _ _ kind
      cases kind <;> simp [name, listPattern, tuplePattern, variadicPattern]
    · intro kind
      cases kind <;> simp [name, listPattern, tuplePattern, variadicPattern, pattern]
  | program => constructor <;> simp [production, program, lineEnds]
  | structDeclaration =>
    constructor
    · simp [production, struct]
    · simp [production, struct]
    · exact ⟨⟨⟨⟨trivial, trivial⟩, trivial⟩, trivial⟩, trivial,
      fun _ _ _ _ h _ ↦ Moves.lt (by simp) h⟩
  | structItem => constructor <;> simp [production, structItem]
  | memberDeclaration => constructor <;> simp [production, member, name, typeExpr]
  | handlerDeclaration =>
    constructor <;> simp [production, handler, name, body, statementBlock]
  | parameters => constructor <;> simp [production, parameter, name, typeExpr]
  | statement =>
    constructor <;>
      simp [production, anyStatement, binding, assignment, forEach, loop, expressionStatement, path,
        expression, pattern, body, statementBlock]
  | statementBlock =>
    constructor
    · simp [production, statements, statement]
    · simp
    · exact ⟨trivial, fun _ _ _ _ h _ ↦ Moves.lt (by simp) h⟩
  | path => constructor <;> simp [production, anyPath, name]
  | expression => 
    exact ⟨⟨by simp, by simp, trivial⟩, fun _ _ ↦ ⟨by simp, by simp, trivial⟩,
      ⟨trivial, trivial, trivial⟩⟩
  | ifExpression =>
    constructor <;>
      simp [production, conditional, expression, body, statementBlock, elseIf, alignedElse]
  | application => constructor <;> simp [production, application]
  | unary =>
    have hproperty : sure .property := by simp
    refine ⟨⟨⟨trivial, .inl nofun⟩, ⟨trivial, .inl nofun⟩, Nat.lt_succ_self 1, trivial⟩,
      fun _ _ ↦ ⟨.inl nofun, .inl nofun, hproperty, trivial⟩, ?_⟩
    exact ⟨⟨trivial, trivial⟩, ⟨trivial, trivial⟩, trivial, trivial⟩
  | property => constructor <;> simp [production, propertyChain, name]
  | atom =>
    constructor <;>
      simp [production, atom, doBlock, creation, message, tuple, list, literal,
        nameExpression, name,
        stringLiteral, integerLiteral, floatLiteral, booleanLiteral, characterLiteral, grouped,
        body, statementBlock, typeExpr, argument, expression]
  | typeExpression =>
    constructor <;>
      simp [production, anyType, namedType, name, listType, tupleType, variadicType, typeArguments,
        typeExpr]

private theorem vacant_program {input : Input} {indent p : Nat} {found : Program}
    (h : program.Accepts input (Moves input) indent p p found) :
    found.location.isGenerated = true := by
  obtain ⟨⟨location, structs⟩, ⟨start, ⟨hstart, hlocation⟩, ⟨_, sentinel⟩,
    ⟨m, hitems, -, -, hend⟩, -⟩, rfl⟩ := h
  subst hstart
  -- The end of the input was read without passing a token, so that nothing was left.
  have hm : start ≤ m := (hitems.within Moves.within).1
  have hafter : m ≤ start := hend ▸ (input.within_after m).1
  have hsize : ¬ m < input.tokens.size := by rwa [← input.lt_after_iff, ← hend, Nat.not_lt]
  change location.isGenerated = true
  rw [show location = _ from hlocation]
  exact input.isGenerated_tokenAt (by omega)

/-- A success of a production moves as its rule does, if those of the rules inside do. -/
theorem moves_of_accepts {input : Input} {indent p q : Nat} {rule : Rule} {found : rule.Result}
    (h : (production rule).Accepts input (Moves input) indent p q found) :
    Moves input indent rule p q found := by
  have hwithin := h.within Moves.within
  refine ⟨hwithin, ?_⟩
  rintro rfl
  by_cases hprogram : rule = .program
  · subst hprogram
    exact vacant_program h
  refine absurd ?_ (Nat.lt_irrefl p)
  by_cases hb : rule = .statementBlock
  · subst hb
    exact (shape input .statementBlock).grounded.lt h.2 h.1
  · exact h.lt Moves.within Moves.lt ((shape input rule).consumes hprogram hb)

/-! ### The depth that suffices -/

section Call

variable (tokens : Array Token)

/-- A deeper bound on nested rules gives the same answers, and a rule answers the same wherever
position and indent are the same. -/
theorem call_agrees_call_add (depth more : Nat) (rule : Rule) :
    Step.Agrees tokens false (fun _ ↦ True) (call depth rule) (call (depth + more) rule) := by
  induction depth generalizing rule with
  | zero => exact fun _ _ _ ↦ .exhausted _
  | succ depth ih =>
    rw [Nat.add_right_comm]
    intro s t h
    simpa [call, Step.remembered] using (production rule).run_agrees ih s t h

/-- A rule agrees with itself at any depth. -/
theorem call_agrees_self (depth : Nat) (rule : Rule) :
    Step.Agrees tokens false (fun _ ↦ True) (call depth rule) (call depth rule) :=
  call_agrees_call_add tokens depth 0 rule

/-- What every production has if the rules inside have it, every success of a rule has. -/
theorem call_induction {Law : Nat → (rule : Rule) → Nat → Nat → rule.Result → Prop}
    (hstep : ∀ {indent rule p q found},
      (production rule).Accepts ⟨tokens, false⟩ Law indent p q found → Law indent rule p q found)
    {depth : Nat} {rule : Rule} {s s' : State} {found : rule.Result}
    (h : call depth rule ⟨tokens, false⟩ s = .ok (.ok found, s')) :
    Law s.indent rule s.position s'.position found := by
  induction depth generalizing rule s s' with
  | zero => cases h
  | succ depth ih =>
    have hrun : (production rule).run (call depth) ⟨tokens, false⟩ s = .ok (.ok found, s') := by
      simpa [call, Step.remembered] using h
    exact hstep ((production rule).accepts_of_run (call_agrees_self tokens depth)
      (fun _ _ _ _ ↦ ih) hrun)

/-- A success of a rule moves as the rule does. -/
theorem call_moves {depth : Nat} {rule : Rule} {s s' : State} {found : rule.Result}
    (h : call depth rule ⟨tokens, false⟩ s = .ok (.ok found, s')) :
    Moves ⟨tokens, false⟩ s.indent rule s.position s'.position found :=
  call_induction tokens moves_of_accepts h

/-- The depth that the rules nested in one at a position may take up: all rules for each token that
is left, and below the height of the rule at the position itself. -/
def room (tokens : Array Token) (rule : Rule) (position : Nat) : Nat :=
  Rule.all.length * (tokens.size - position) + height rule

/-- The meaning of a rule that is cut off where it begins again under a key under which it is
running already; those keys are `active`. -/
def guardedCall : (depth : Nat) → (active : List Key) → (rule : Rule) → Step rule.Result
  | 0, _, _ => fun _ _ => .error .exhausted
  | depth + 1, active, rule => .remembered rule fun input state =>
    let key : Key := ⟨rule, state.position, state.indent⟩
    if key ∈ active then .error .exhausted
    else (production rule).run (guardedCall depth (key :: active)) input state

/-- Where it is not cut off, a guarded rule answers as the rule does. -/
theorem guardedCall_approximates (input : Input) (depth : Nat) (active : List Key) (rule : Rule) :
    (guardedCall depth active rule).Approximates input (call depth rule) := by
  induction depth generalizing active rule with
  | zero => exact fun _ ↦ .inl rfl
  | succ depth ih =>
    refine Step.approximates_remembered fun s ↦ ?_
    dsimp only
    split
    · exact .inl rfl
    · exact (production rule).run_approximates (ih _) s

/-- Without memory, a guarded rule is its guarded production. -/
theorem guardedCall_succ (depth : Nat) (active : List Key) (rule : Rule) (s : State) :
    guardedCall (depth + 1) active rule ⟨tokens, false⟩ s =
      if ⟨rule, s.position, s.indent⟩ ∈ active then .error .exhausted
      else (production rule).run (guardedCall depth (⟨rule, s.position, s.indent⟩ :: active))
        ⟨tokens, false⟩ s := by
  simp [guardedCall, Step.remembered]

/-- Without memory, a guarded rule agrees with itself. -/
theorem guardedCall_agrees_self (depth : Nat) (active : List Key) (rule : Rule) :
    Step.Agrees tokens false (fun _ ↦ True) (guardedCall depth active rule)
      (guardedCall depth active rule) := by
  induction depth generalizing active rule with
  | zero => exact fun _ _ _ ↦ .exhausted _
  | succ depth ih =>
    intro s t h
    rw [guardedCall_succ, guardedCall_succ, h.position, h.indent]
    split
    · exact .exhausted _
    · exact (production rule).run_agrees (ih _) s t h

/-- A success of a guarded rule moves as the rule does. -/
theorem guardedCall_moves {depth : Nat} {active : List Key} {rule : Rule} {s s' : State}
    {found : rule.Result}
    (h : guardedCall depth active rule ⟨tokens, false⟩ s = .ok (.ok found, s')) :
    Moves ⟨tokens, false⟩ s.indent rule s.position s'.position found := by
  have hcall := (guardedCall_approximates ⟨tokens, false⟩ depth active rule).eq (s := s)
    (by rw [h]; exact nofun)
  exact call_moves tokens (hcall.symm.trans h)

/-- With room for the rules nested in it, and with higher rules only running at its position, a
guarded rule ends. -/
theorem guardedCall_settles {depth : Nat} {active : List Key} {rule : Rule} {s : State}
    (h : room tokens rule s.position < depth)
    (hactive : ∀ key ∈ active, key.position < s.position ∨
      key.position = s.position ∧ height rule < height key.rule) :
    (guardedCall depth active rule).Settles ⟨tokens, false⟩ s := by
  induction depth generalizing active rule s with
  | zero => omega
  | succ depth ih =>
    have hfresh : (⟨rule, s.position, s.indent⟩ : Key) ∉ active := by
      intro hmem
      obtain hlt | ⟨-, hlt⟩ := hactive _ hmem
      · exact Nat.lt_irrefl _ hlt
      · exact Nat.lt_irrefl _ hlt
    have hshape := shape ⟨tokens, false⟩ rule
    unfold Step.Settles
    rw [guardedCall_succ, if_neg hfresh]
    refine Parser.run_settles (guardedCall_agrees_self tokens depth _)
      (fun _ _ _ _ ↦ guardedCall_moves tokens) Moves.within Moves.lt (production rule)
      hshape.grounded hshape.starts ?_
    unfold room at *
    constructor
    · intro other m hlow hm
      refine ih (by rw [hm]; omega) fun key hkey ↦ ?_
      obtain rfl | hkey := List.mem_cons.1 hkey
      · exact .inr ⟨hm.symm, hlow⟩
      · rw [hm]
        exact (hactive key hkey).imp id fun ⟨heq, hlt⟩ ↦ ⟨heq, Nat.lt_trans hlow hlt⟩
    · intro other m hlt hle
      have := height_lt other
      have hstep : Rule.all.length * (tokens.size - m.position) + Rule.all.length ≤
          Rule.all.length * (tokens.size - s.position) := by
        rw [← Nat.mul_succ]
        exact Nat.mul_le_mul_left _ (by omega)
      refine ih (by omega) fun key hkey ↦ .inl ?_
      obtain rfl | hkey := List.mem_cons.1 hkey
      · exact hlt
      · obtain hbefore | ⟨heq, -⟩ := hactive key hkey
        · exact Nat.lt_trans hbefore hlt
        · exact heq ▸ hlt

/-- With room for the rules nested in it, a rule ends. -/
theorem call_settles {depth : Nat} {rule : Rule} {s : State}
    (h : room tokens rule s.position < depth) : (call depth rule).Settles ⟨tokens, false⟩ s := by
  have hguarded : (guardedCall depth [] rule).Settles ⟨tokens, false⟩ s :=
    guardedCall_settles tokens h nofun
  unfold Step.Settles at *
  rwa [(guardedCall_approximates ⟨tokens, false⟩ depth [] rule).eq hguarded] at hguarded

/-- No rule takes up more depth than `parse` allows. -/
theorem room_lt_depthBound (input : Input) (rule : Rule) (position : Nat) :
    room input.tokens rule position < depthBound input := by
  have := height_lt rule
  have hle : Rule.all.length * (input.tokens.size - position) ≤
      Rule.all.length * input.tokens.size := Nat.mul_le_mul_left _ (Nat.sub_le ..)
  unfold room depthBound
  rw [Nat.mul_succ]
  omega

end Call

end Offside.Grammar
