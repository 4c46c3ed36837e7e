import Offside.Proofs.Grammar.Rollback
import Offside.Proofs.Grammar.Soundness
import Offside.Proofs.Grammar.Standing
import Offside.Proofs.Packrat.Confined

/-!
# Reading the tokens of a source text

On the tokens of a source text every rule but that for programs is confined (`call_confined`),
because its production is candid: what it reads as patterns, statements and items is derived from
tokens, and so it stands at one of them. A program is read to the end of the input, or it fails
fatally at a token and leaves the position at the start (`parseAt_ofSource`).
-/

namespace Offside.Grammar

open Packrat Offside.Derivation

variable {α β : Type} {input : Input}

/-! ### Values of scanned tokens -/

-- The payload is the one that goes with the kind.
private def Suits : TokenKind → Payload → Prop
  | .identifier, payload | .string, payload => ∃ value, payload = .text value
  | .integer, payload => ∃ value, payload = .integer value
  | .float, payload => ∃ value, payload = .float value
  | .boolean, payload => ∃ value, payload = .boolean value
  | .character, payload => ∃ value, payload = .character value
  | _, _ => True

private theorem suits_of_scanned {token : Token} (h : token.Scanned) :
    Suits token.kind token.payload := by
  obtain ⟨⟨kind, payload⟩, location⟩ := token
  obtain hlegible | hline := h.legible
  · dsimp only at hlegible ⊢
    cases hlegible with
    | spelled hspelled => cases kind <;> trivial
    | _ => exact ⟨_, rfl⟩
  · dsimp only at hline
    subst hline
    trivial

private theorem candid_value {kind : TokenKind} {read : Payload → Option α}
    (hkind : kind ≠ .endOfInput) (h : ∀ payload, Suits kind payload → (read payload).isSome) :
    (Parser.value kind read).Candid input sure (Reads input) := by
  refine ⟨hkind, ?_⟩
  rintro token hscanned rfl
  exact h _ (suits_of_scanned hscanned)

private theorem candid_name (input : Input) : name.Candid input sure (Reads input) :=
  candid_value (by decide) (by rintro _ ⟨value, rfl⟩; rfl)

private theorem candid_literal (input : Input) : literal.Candid input sure (Reads input) := by
  refine ⟨?_, ?_, ?_, ?_, ?_, ?_, fun _ ↦ Problem.IsOrdinary.told trivial⟩ <;>
    exact candid_value (by decide) (by rintro _ ⟨value, rfl⟩; rfl)

/-! ### Productions -/

private theorem exists_of_standsIn {location : Location} {p q : Nat}
    (h : StandsIn location (input.segment p q)) :
    ∃ r < input.tokens.size, location = (input.tokenAt r).location := by
  obtain ⟨token, htoken, rfl⟩ := h
  have hmem : token ∈ input.tokens.toList := List.mem_of_mem_drop (List.mem_of_mem_take htoken)
  obtain ⟨r, hr, rfl⟩ := List.getElem_of_mem hmem
  rw [Array.length_toList] at hr
  refine ⟨r, hr, ?_⟩
  rw [Input.tokenAt, Array.getElem?_eq_getElem hr]
  rfl

private theorem isGenerated_of_standsIn (hinput : input.Scanned) {location : Location} {p q : Nat}
    (h : StandsIn location (input.segment p q)) : location.isGenerated = false := by
  obtain ⟨r, hr, rfl⟩ := exists_of_standsIn h
  exact hinput.placed hr

-- Each of the patterns stands at a token of the input.
private def AllStand (input : Input) (patterns : List Pattern) : Prop :=
  ∀ pattern ∈ patterns, ∃ r < input.tokens.size, pattern.location = (input.tokenAt r).location

private theorem stands_of_reads {indent p q : Nat} {found : Pattern}
    (h : Reads input indent .pattern p q found) :
    ∃ r < input.tokens.size, found.location = (input.tokenAt r).location := by
  have hlt := h.moves.lt (by simp [sure])
  have hsize := h.moves.within.2
  exact exists_of_standsIn (IsPattern.standsIn (h.derives (by omega)))

private theorem allStand_of_listed {indent p q : Nat} {found : Option (List Pattern)}
    (h : (Parser.optional (.commaSeparated pattern)).Accepts input (Reads input) indent p q found) :
    AllStand input (found.getD []) := by
  intro other hmem
  obtain ⟨_, _, hother⟩ := Parser.exists_of_listed h hmem
  exact stands_of_reads hother

private theorem blamesAll_withOneVariadic {build : Location → List Pattern → Pattern}
    {opening : Location} {patterns : List Pattern} (h : AllStand input patterns) :
    input.BlamesAll (withOneVariadic build opening patterns) := by
  unfold withOneVariadic
  split
  · next second hsecond =>
    have hmem := (List.filter_sublist.subset (List.mem_of_getElem? hsecond))
    exact Input.blamesAll_recoverable.2 ⟨h second hmem, Problem.IsOrdinary.told trivial⟩
  · exact Input.blamesAll_ok _

attribute [local simp] Parser.Candid Parser.choice Parser.skip Parser.skipLeft Parser.commaSeparated
  sure candid_name candid_literal

private theorem told_noAlternative (found : Terminal) : (Problem.noAlternative found).Told :=
  Problem.IsOrdinary.told trivial

private theorem told_type : (Problem.stated "expected type").Told :=
  Problem.told_stated String.toList_ofList (by decide)

attribute [local simp] told_noAlternative told_type

private theorem candid_ladder (level : Level) :
    (ladder level).Candid input sure (Reads input) := by
  unfold ladder operands operatorOf
  cases level <;> simp [Level.chains, Level.operators, BinaryOperator.token, operandOf, levelRule]

private theorem candid_listPattern : listPattern.Candid input sure (Reads input) := by
  refine ⟨by simp [pattern], ?_⟩
  rintro indent p q _ - ⟨⟨⟨opening, patterns⟩, closing⟩, ⟨m, ⟨k, -, hpatterns⟩, -⟩, rfl⟩
  exact blamesAll_withOneVariadic (allStand_of_listed hpatterns)

private theorem candid_tuplePattern : tuplePattern.Candid input sure (Reads input) := by
  refine ⟨by simp [pattern], ?_⟩
  rintro indent p q _ - ⟨⟨⟨⟨opening, first⟩, rest⟩, closing⟩, ⟨m, ⟨k, ⟨l, -, hfirst⟩,
    ⟨comma, patterns⟩, ⟨n, -, hrest⟩, hpatterns⟩, -⟩, rfl⟩
  dsimp only at hpatterns hrest
  subst hpatterns
  exact blamesAll_withOneVariadic
    (List.forall_mem_cons.2 ⟨stands_of_reads hfirst, allStand_of_listed hrest⟩)

private theorem candid_pattern : anyPattern.Candid input sure (Reads input) := by
  intro kind
  cases kind with
  | leftBracket => exact candid_listPattern
  | leftParen => exact candid_tuplePattern
  | identifier => exact candid_name input
  | underscore => exact nofun
  | doublePeriod => exact ⟨nofun, nofun⟩
  | _ => exact fun _ ↦ Problem.IsOrdinary.told trivial

private theorem candid_atom : atom.Candid input sure (Reads input) := by
  simp [atom, doBlock, creation, message, tuple, list, grouped, body, statementBlock, typeExpr,
    argument, expression]

-- Every production but that of a program is candid.
private theorem candid_production {rule : Rule} (hinput : input.Scanned) (hrule : sure rule) :
    (production rule).Candid input sure (Reads input) := by
  cases rule with
  | program => exact absurd rfl hrule
  | xor | or | and | equality | relation | additive | multiplicative => exact candid_ladder _
  | pattern => exact candid_pattern
  | structDeclaration =>
    refine ⟨by simp, Problem.told_stated String.toList_ofList (by decide), by rintro ⟨⟩,
      fun indent p q found hp h ↦ ?_⟩
    exact isGenerated_of_standsIn hinput (IsItem.standsIn (Reads.derives h hp))
  | structItem | memberDeclaration | handlerDeclaration | parameters =>
    simp [production, structItem, member, handler, parameter, body, statementBlock, typeExpr]
  | statement | path =>
    simp [production, anyStatement, binding, assignment, forEach, loop, expressionStatement, path,
      expression, pattern, body, statementBlock, anyPath]
  | statementBlock =>
    refine ⟨by rintro ⟨⟩, fun indent p q found hp h ↦ ?_⟩
    exact isGenerated_of_standsIn hinput (IsStatement.standsIn (Reads.derives h hp))
  | expression => exact ⟨by rintro ⟨⟩, by rintro ⟨⟩, told_noAlternative⟩
  | ifExpression | application =>
    simp [production, conditional, application, expression, body, statementBlock, elseIf,
      alignedElse]
  | unary =>
    have hproperty : sure .property := by rintro ⟨⟩
    exact ⟨⟨by rintro ⟨⟩, hproperty⟩, ⟨by rintro ⟨⟩, hproperty⟩, hproperty, told_noAlternative⟩
  | property => simp [production, propertyChain]
  | atom => exact candid_atom
  | typeExpression =>
    simp [production, anyType, namedType, listType, tupleType, variadicType, typeArguments,
      typeExpr]

/-! ### Rules and whole programs -/

/-- On the tokens of a source text every rule but that for programs is confined. -/
theorem call_confined {tokens : Array Token} (hinput : Input.Scanned ⟨tokens, false⟩) (depth : Nat)
    {rule : Rule} (hrule : sure rule) : (call depth rule).Confined ⟨tokens, false⟩ := by
  have hend : (Input.tokenAt ⟨tokens, false⟩ (tokens.size - 1)).kind = .endOfInput :=
    hinput.last (Nat.sub_add_cancel hinput.nonempty)
  induction depth generalizing rule with
  | zero => exact fun _ _ ↦ rfl
  | succ depth ih =>
    intro s hs
    have hrun := Parser.run_confined hinput (call_agrees_self tokens depth)
      (fun _ _ _ _ h ↦ call_induction tokens (reads_of_accepts hend) h) (fun _ ↦ ih)
      (candid_production hinput hrule) s hs
    simpa [call, Step.remembered] using hrun

-- A program is read, or fails fatally at a token of the text.
private theorem program_decides {tokens : Array Token} (hinput : Input.Scanned ⟨tokens, false⟩)
    (depth : Nat) {s : State} (hs : s.position < tokens.size) :
    Input.Decides ⟨tokens, false⟩ (program.run (call depth) ⟨tokens, false⟩ s) := by
  have hends : (lineEnds.run (call depth)).Confined ⟨tokens, false⟩ :=
    Step.confined_many (Step.confined_token hinput (by decide))
  have hstruct : (((Parser.rule .structDeclaration : Parser Struct).skip lineEnds).run
      (call depth)).Confined ⟨tokens, false⟩ :=
    Step.confined_map _ (Step.confined_seq (call_confined hinput depth nofun) hends)
  have hstructs := Step.confined_map Prod.snd (Step.confined_seq hends (Step.confined_many hstruct))
  have hitems {m : State} (hm : m.position < tokens.size) := Step.decides_map Prod.snd
    (Step.decides_seq (Step.decides_many (Step.confined_token hinput (by decide)) hm)
      fun _ _ hm' ↦ Step.decides_many hstruct (hends.lt hm hm'))
  refine Step.decides_map _ (Step.decides_seq trivial fun _ m hm ↦ ?_)
  cases hm
  refine Step.decides_map _ (Step.decides_seq (hitems hs) fun _ m hm ↦ ?_)
  exact Step.decides_commit_token _ (hstructs.lt hs hm)

-- A derivation of a program takes all tokens, since the last one ends the input.
private theorem stop_of_isProgram (hinput : input.Scanned) {q : Nat} (hq : q ≤ input.tokens.size)
    {found : Program} (h : IsProgram (input.segment 0 q) found) : q = input.tokens.size := by
  obtain ⟨last, hmem, hkind⟩ : ∃ last ∈ input.segment 0 q, last.kind = .endOfInput := by
    generalize input.segment 0 q = row at h
    obtain ⟨-, -, hkind, -⟩ := h
    exact ⟨_, by simp, hkind⟩
  obtain ⟨r, hr, hlast⟩ := List.getElem_of_mem hmem
  simp only [Input.segment, List.length_take, List.length_drop, Array.length_toList] at hr
  have htoken : input.tokenAt r = last := by
    rw [Input.tokenAt, Array.getElem?_eq_getElem (by omega), ← hlast]
    simp [Input.segment]
  have hend := hinput.eq_of_kind (p := r) (by omega) (by rw [htoken, hkind])
  omega

-- With memory or without it, the tokens of a source text are read as a program or not, and if not,
-- the failure is fatal and located at a token.
private theorem parse_decides {tokens : Array Token} (hinput : Input.Scanned ⟨tokens, false⟩)
    (memoize : Bool) : ∃ outcome s', parse (.rule .program) ⟨tokens, memoize⟩ .start =
      .ok (outcome, s') ∧ Input.Decides ⟨tokens, false⟩ (.ok (outcome, s')) := by
  have hsettles := parse_settles tokens (grounded_rule tokens .program) .start
  have hdecides : Input.Decides ⟨tokens, false⟩
    (parse (.rule .program) ⟨tokens, false⟩ .start) := by
    rw [parse_rule]
    exact program_decides hinput _ hinput.nonempty
  have hagree := parse_agrees tokens memoize (.rule .program) .start .start
    ⟨rfl, rfl, sound_empty _⟩
  unfold Step.Settles at hsettles
  revert hsettles hdecides hagree
  generalize parse (.rule .program) ⟨tokens, false⟩ .start = x,
    parse (.rule .program) ⟨tokens, memoize⟩ .start = y
  intro hsettles hdecides hagree
  cases hagree with
  | exhausted => exact absurd rfl hsettles
  | fault fault =>
    cases hdecides
    exact absurd rfl hsettles
  | answer outcome position table =>
    refine ⟨outcome, _, rfl, ?_⟩
    cases outcome <;> exact hdecides

/-- The tokens of a source text are read as a program up to their end, or the reading fails fatally:
then the position is back at the start, and the failure is located at one of the tokens, but not
because something stands in no column. Memory makes no difference. -/
theorem parseAt_ofSource {file source : String} {tokens : List Token}
    (htokens : Token.ofSource file source = .ok tokens) (memoize : Bool) :
    ∃ outcome s', Program.parseAt ⟨tokens.toArray, memoize⟩ .start = .ok (outcome, s') ∧
      ((∃ found, outcome.toExcept = .ok found ∧ s'.position = tokens.length) ∨
        ∃ failure, outcome.toExcept = .error ⟨.fatal, failure⟩ ∧ s'.position = 0 ∧
          (∃ token ∈ tokens, failure.location = token.location) ∧
          failure.location.isGenerated = false ∧
          failure.message ≠ "generated location cannot delimit a block") := by
  have hinput := Input.scanned_of_ofSource htokens false
  have hend :
      (Input.tokenAt ⟨tokens.toArray, false⟩ (tokens.toArray.size - 1)).kind = .endOfInput :=
    hinput.last (Nat.sub_add_cancel hinput.nonempty)
  obtain ⟨outcome, s', hanswer, hdecides⟩ := parse_decides hinput memoize
  refine ⟨outcome, s', hanswer, ?_⟩
  cases outcome with
  | ok found =>
    obtain ⟨hreads, -⟩ := parse_induction tokens.toArray (reads_of_accepts hend) (sound_empty _)
      hanswer
    have hwithin : s'.position ≤ max 0 tokens.toArray.size := hreads.moves.within.2
    rw [Nat.zero_max] at hwithin
    have hstop : s'.position = tokens.toArray.size :=
      stop_of_isProgram hinput hwithin (hreads.derives hinput.nonempty)
    exact .inl ⟨found, rfl, hstop⟩
  | recoverable failure => exact hdecides.elim
  | fatal failure =>
    have hback : s'.position = 0 :=
      (call_restored _ .program .start _ s' hanswer restoring_empty).1 nofun
    obtain ⟨⟨p, hp, hlocation⟩, htold⟩ := hdecides
    refine .inr ⟨failure, rfl, hback, ⟨_, ?_, hlocation⟩, ?_, htold⟩
    · rw [Input.tokenAt, Array.getElem?_eq_getElem hp]
      exact List.getElem_mem _
    · rw [hlocation]
      exact hinput.placed hp

/-- A struct without a name is no program: the failure is located at the end of the input. -/
theorem parseAt_ofSource_nameless :
    ∃ tokens s', Token.ofSource "f" "struct" = .ok tokens ∧
      Program.parseAt ⟨tokens.toArray, true⟩ .start =
        .ok (.fatal ⟨.concrete "f" 1 7 6, .expectedToken .identifier ⟨.endOfInput, .none⟩⟩, s') ∧
      s'.position = 0 := by
  have htokens : Token.ofSource "f" "struct" =
      .ok [⟨⟨.kwStruct, .none⟩, .concrete "f" 1 1 0⟩,
        ⟨⟨.endOfInput, .none⟩, .concrete "f" 1 7 6⟩] := by
    with_unfolding_all rfl
  obtain ⟨outcome, s', hanswer, hends⟩ := parseAt_ofSource htokens true
  refine ⟨_, s', htokens, ?_⟩
  have houtcome : outcome =
      .fatal ⟨.concrete "f" 1 7 6, .expectedToken .identifier ⟨.endOfInput, .none⟩⟩ :=
    congrArg Prod.fst (Except.ok.inj (hanswer.symm.trans rfl))
  subst houtcome
  obtain ⟨found, hfound, -⟩ | ⟨failure, -, hback, -⟩ := hends
  · cases hfound
  · exact ⟨hanswer, hback⟩

end Offside.Grammar
