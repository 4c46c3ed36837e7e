import Mathlib.Data.List.Basic
import Offside.Proofs.Grammar.Counting
import Offside.Proofs.Packrat.Relocation

/-!
# The grammar at other locations

Every production compares columns only with the columns of open blocks, and puts locations into
trees and failures without looking at them (`natural_production`). So on tokens at other locations
in the same order of columns a rule answers the same, but for the locations (`parse_relocate`),
whatever either run remembers.
-/

namespace Offside

open Packrat Grammar

namespace Packrat.Parser.Natural

variable {g : Reindentation} {α β : Type} {ρ : α → α} {σ : β → β}

private theorem skip {first : Parser α} {second : Parser β} (h : Natural g ρ first)
    (h' : Natural g σ second) : Natural g ρ (first.skip second) :=
  .map (.seq h h') fun _ ↦ rfl

private theorem skipLeft {first : Parser α} {second : Parser β} (h : Natural g ρ first)
    (h' : Natural g σ second) : Natural g σ (first.skipLeft second) :=
  .map (.seq h h') fun _ ↦ rfl

private theorem choice {alternatives : List (Parser α)} (h : alternatives.Forall (Natural g ρ)) :
    Natural g ρ (.choice alternatives) := by
  rw [List.forall_iff_forall_mem] at h
  induction alternatives with
  | nil => exact .fail fun _ ↦ rfl
  | cons first rest ih =>
    exact .orElse (h first List.mem_cons_self) (ih fun parser hmem ↦ h parser (.tail _ hmem))

private theorem commaSeparated {item : Parser α} (h : Natural g ρ item) :
    Natural g (List.map ρ) (.commaSeparated item) :=
  .map (.seq h (.many (.skipLeft .token (.commit h)))) fun _ ↦ rfl

end Packrat.Parser.Natural

namespace Grammar

open Packrat.Parser

variable (g : Reindentation)

private theorem natural_name : Natural g (Prod.map id g.location) name := .value

private theorem natural_typeExpr : Natural g (TypeExpr.relocate g.location) typeExpr :=
  .rule .typeExpression

private theorem getD_map_map {α : Type} (ρ : α → α) (items : Option (List α)) :
    (items.map (List.map ρ)).getD [] = (items.getD []).map ρ := by
  cases items <;> rfl

private theorem foldl_map_hom {α β : Type} {ρ : α → α} {σ : β → β} {build : β → α → β}
    (h : ∀ inner item, build (σ inner) (ρ item) = σ (build inner item)) (inner : β)
    (items : List α) : (items.map ρ).foldl build (σ inner) = σ (items.foldl build inner) := by
  rw [List.foldl_map]
  exact List.foldl_hom σ fun inner item ↦ h inner item

/-! ### Leaves -/

private theorem natural_nameExpression :
    Natural g (Expression.relocate g.location) nameExpression :=
  .map (natural_name g) fun _ ↦ rfl

private theorem natural_literal : Natural g (Expression.relocate g.location) literal :=
  .choice ⟨natural_nameExpression g, .map .value fun _ ↦ rfl, .map .value fun _ ↦ rfl,
    .map .value fun _ ↦ rfl, .map .value fun _ ↦ rfl, .map .value fun _ ↦ rfl⟩

private theorem natural_anyType : Natural g (TypeExpr.relocate g.location) anyType := by
  have htype := natural_typeExpr g
  have harguments : Natural g (List.map (TypeExpr.relocate g.location)) typeArguments :=
    .skip (.skipLeft .token (.map (.seq htype (.many (.skipLeft .token htype))) fun _ ↦ rfl)) .token
  refine .choice ⟨.map (.seq (natural_name g) (.optional harguments)) ?_, ?_, ?_, ?_⟩
  · rintro ⟨⟨value, location⟩, arguments⟩
    simp only [Prod.map, TypeExpr.relocate, relocateTypes_eq, getD_map_map, id]
  · exact .map (.skip (.seq .token (.commit htype)) (.commit .token)) fun _ ↦ rfl
  · refine .map (.skip (.seq (.seq .token (.commit htype)) (.skipLeft (.commit .token)
      (.optional (.commaSeparated htype)))) (.commit .token)) ?_
    rintro ⟨⟨opening, first⟩, rest⟩
    simp only [Prod.map, TypeExpr.relocate, relocateTypes_eq, getD_map_map, List.map_cons]
    rfl
  · exact .map (.seq .token (.commit htype)) fun _ ↦ rfl

private theorem natural_pattern : Natural g (Pattern.relocate g.location) pattern := .rule .pattern

private theorem natural_path : Natural g (Path.relocate g.location) path := .rule .path

private theorem withOneVariadic_relocate {build : Location → List Pattern → Pattern}
    (hbuild : ∀ location patterns, (build location patterns).relocate g.location =
      build (g.location location) (patterns.map (Pattern.relocate g.location)))
    (opening : Location) (patterns : List Pattern) :
    withOneVariadic build (g.location opening) (patterns.map (Pattern.relocate g.location)) =
      g.outcome (Pattern.relocate g.location) (withOneVariadic build opening patterns) := by
  have hvariadic : Pattern.isVariadic ∘ Pattern.relocate g.location = Pattern.isVariadic :=
    funext fun pattern ↦ pattern.isVariadic_relocate g.location
  unfold withOneVariadic
  rw [List.filter_map, hvariadic, List.getElem?_map]
  cases (patterns.filter Pattern.isVariadic)[1]? with
  | none => exact congrArg Outcome.ok (hbuild opening patterns).symm
  | some second =>
    simp only [Option.map_some, Pattern.location_relocate]
    rfl

private theorem natural_anyPattern : Natural g (Pattern.relocate g.location) anyPattern := by
  have hpattern := natural_pattern g
  have hlist : Natural g (Pattern.relocate g.location) listPattern := by
    refine .check (.skip (.seq .token (.optional (.commaSeparated hpattern))) (.commit .token)) ?_
    rintro ⟨opening, patterns⟩
    simp only [Prod.map, getD_map_map]
    refine withOneVariadic_relocate g (fun _ _ ↦ ?_) _ _
    rw [Pattern.relocate, relocatePatterns_eq]
  have htuple : Natural g (Pattern.relocate g.location) tuplePattern := by
    refine .check (.skip (.seq (.seq .token (.commit hpattern)) (.skipLeft .token
      (.optional (.commaSeparated hpattern)))) (.commit .token)) ?_
    rintro ⟨⟨opening, first⟩, rest⟩
    simp only [Prod.map, getD_map_map, ← List.map_cons]
    refine withOneVariadic_relocate g (fun _ _ ↦ ?_) _ _
    rw [Pattern.relocate, relocatePatterns_eq]
  have hvariadic : Natural g (Pattern.relocate g.location) variadicPattern := by
    refine .map (.seq .token (.optional hpattern)) ?_
    rintro ⟨periods, inner⟩
    simp only [Prod.map, Pattern.relocate, relocateOptionalPattern_eq]
    rfl
  refine .onKind fun kind ↦ ?_
  split
  · exact .map (natural_name g) fun _ ↦ rfl
  · exact .map .token fun _ ↦ rfl
  · exact hlist
  · exact htuple
  · exact hvariadic
  · exact .fail fun _ ↦ rfl

private theorem natural_anyPath : Natural g (Path.relocate g.location) anyPath := by
  refine .map (.seq (natural_name g) (.many (.skipLeft .token (.commit (natural_name g))))) ?_
  rintro ⟨⟨root, location⟩, properties⟩
  refine foldl_map_hom (σ := Path.relocate g.location) (fun inner item ↦ ?_)
    (.name location root) properties
  simp only [Prod.map, Path.relocate, Path.location_relocate, id]

/-! ### Expressions and statements -/

private theorem natural_expression : Natural g (Expression.relocate g.location) expression :=
  .rule .expression

private theorem natural_statementBlock :
    Natural g (List.map (Statement.relocate g.location)) statementBlock :=
  .rule .statementBlock

private theorem natural_body : Natural g (Block.relocate g.location) body := by
  refine .map (.seq (.skip (.commit .token) (.commit .token))
    (.commit (natural_statementBlock g))) ?_
  rintro ⟨colon, statements⟩
  simp only [Prod.map, Block.relocate, relocateStatements_eq]
  rfl

private theorem natural_conditional : Natural g (Expression.relocate g.location) conditional := by
  have hexpression := natural_expression g
  have hbody := natural_body g
  have halternative : Natural g (ElseIf.relocate g.location) elseIf :=
    .map (.seq (.seq (.skip (.inBlockColumn .token) .token) (.commit hexpression)) (.commit hbody))
      fun _ ↦ rfl
  refine .map (.seq (.seq (.seq (.seq .token (.commit hexpression)) (.commit hbody))
    (.many halternative)) (.optional (.skipLeft (.inBlockColumn .token) (.commit hbody)))) ?_
  rintro ⟨⟨⟨⟨word, condition⟩, body⟩, alternatives⟩, otherwise⟩
  simp only [Prod.map, Expression.relocate, relocateElseIfs_eq, relocateOtherwise_eq]
  rfl

private theorem natural_application : Natural g (Expression.relocate g.location) application := by
  refine .map (.seq (.rule .xor) (.many (.sameLine (.rule .xor)))) ?_
  rintro ⟨receiver, messages⟩
  refine foldl_map_hom (σ := Expression.relocate g.location) (fun inner item ↦ ?_) receiver messages
  simp only [Expression.relocate, Expression.location_relocate]
  rfl

private theorem applied_relocate (operator : BinaryOperator) (left right : Expression) :
    applied (left.relocate g.location) operator (right.relocate g.location) =
      (applied left operator right).relocate g.location := by
  simp only [applied, Expression.relocate, Expression.location_relocate]

private theorem natural_ladder (level : Level) :
    Natural g (Expression.relocate g.location) (ladder level) := by
  have hoperand : Natural g (Expression.relocate g.location) (operandOf level) := by
    cases level
    · exact .rule .or
    · exact .rule .and
    · exact .rule .equality
    · exact .rule .relation
    · exact .rule .additive
    · exact .rule .multiplicative
    · exact .rule .unary
  have hoperator : Natural g id (operatorOf level) := by
    refine .sameLine (.choice ?_)
    rw [List.forall_map_iff, List.forall_iff_forall_mem]
    exact fun operator _ ↦ .map .token fun _ ↦ rfl
  have hcontinuation := hoperator.seq hoperand.commit
  unfold ladder operands
  dsimp only
  split
  · refine .map (.seq hoperand (.many hcontinuation)) ?_
    rintro ⟨first, rest⟩
    refine foldl_map_hom (σ := Expression.relocate g.location) (fun left item ↦ ?_) first rest
    exact applied_relocate g item.1 left item.2
  · refine .map (.seq hoperand (.optional hcontinuation)) ?_
    rintro ⟨left, _ | ⟨operator, right⟩⟩
    · rfl
    · exact applied_relocate g operator left right

private theorem natural_unary : Natural g (Expression.relocate g.location) unary := by
  have hsigned (operator : UnaryOperator) :
      Natural g (Expression.relocate g.location) (signed operator) :=
    .map (.seq .token (.commit (.rule .property))) fun _ ↦ rfl
  exact .choice ⟨hsigned .negate, hsigned .not, .rule .property⟩

private theorem natural_propertyChain :
    Natural g (Expression.relocate g.location) propertyChain := by
  refine .map (.seq (.rule .atom)
    (.many (.skipLeft (.sameLine .token) (.commit (natural_name g))))) ?_
  rintro ⟨root, names⟩
  refine foldl_map_hom (σ := Expression.relocate g.location) (fun inner item ↦ ?_) root names
  simp only [Prod.map, Expression.relocate, Expression.location_relocate, id]

private theorem natural_atom : Natural g (Expression.relocate g.location) atom := by
  have hexpression := natural_expression g
  have hblock : Natural g (Expression.relocate g.location) doBlock := by
    refine .map (.seq .token (.commit (natural_body g))) ?_
    rintro ⟨word, body⟩
    simp only [Prod.map, Expression.relocate, Block.relocate, Block.statements_relocate]
    rfl
  have hcreation : Natural g (Expression.relocate g.location) creation :=
    .map (.seq .token (.commitAs (natural_typeExpr g) rfl)) fun _ ↦ rfl
  have hargument : Natural g (Argument.relocate g.location) argument :=
    .map (.seq (.skip (natural_name g) (.commit .token)) (.commit hexpression)) fun _ ↦ rfl
  have hmessage : Natural g (Expression.relocate g.location) message := by
    refine .map (.skip (.seq (.seq .token (.commit (natural_name g)))
      (.optional (.commaSeparated hargument))) (.commit .token)) ?_
    rintro ⟨⟨opening, header, location⟩, arguments⟩
    simp only [Prod.map, Expression.relocate, relocateArguments_eq, getD_map_map, id]
    rfl
  have htuple : Natural g (Expression.relocate g.location) tuple := by
    refine .map (.skip (.seq (.seq .token (.commit hexpression)) (.skipLeft .token
      (.optional (.commaSeparated hexpression)))) (.commit .token)) ?_
    rintro ⟨⟨opening, first⟩, rest⟩
    simp only [Prod.map, Expression.relocate, relocateExpressions_eq, getD_map_map, List.map_cons]
    rfl
  have hlist : Natural g (Expression.relocate g.location) list := by
    refine .map (.skip (.seq .token (.optional (.commaSeparated hexpression))) (.commit .token)) ?_
    rintro ⟨opening, elements⟩
    simp only [Prod.map, Expression.relocate, relocateExpressions_eq, getD_map_map]
    rfl
  exact .choice ⟨hblock, hcreation, hmessage, htuple, hlist, natural_literal g,
    .skip (.skipLeft .token (.commit hexpression)) (.commit .token)⟩

private theorem natural_anyStatement : Natural g (Statement.relocate g.location) anyStatement := by
  have hexpression := natural_expression g
  have hpattern := natural_pattern g
  have hbody := natural_body g
  refine .choice ⟨?_, ?_, ?_, ?_, ?_⟩
  · exact .map (.skip (.seq (.skip (.seq .token (.commit hpattern)) (.commit .token))
      (.commit hexpression)) (.commit .endOfStatement)) fun _ ↦ rfl
  · refine .map (.skip (.seq (.skip (natural_path g) .token) (.commit hexpression))
      (.commit .endOfStatement)) ?_
    rintro ⟨path, value⟩
    simp only [Prod.map, Statement.relocate, Path.location_relocate]
  · exact .map (.seq (.seq (.skip (.seq .token (.commit hpattern)) (.commit .token))
      (.commit hexpression)) (.commit hbody)) fun _ ↦ rfl
  · exact .map (.seq (.seq .token (.commit hexpression)) (.commit hbody)) fun _ ↦ rfl
  · refine .map (.skip hexpression .endOfStatement) fun expression ↦ ?_
    simp only [Statement.relocate, Expression.location_relocate]

/-! ### Declarations -/

private theorem natural_parameter : Natural g (Parameter.relocate g.location) parameter := by
  refine .map (.seq (natural_name g)
    (.optional (.skipLeft .token (.commitAs (natural_typeExpr g) rfl)))) fun _ ↦ rfl

private theorem natural_member : Natural g (Member.relocate g.location) member :=
  .map (.skip (.seq (.skip (natural_name g) .token) (.commitAs (natural_typeExpr g) rfl))
    (.commit .token)) fun _ ↦ rfl

private theorem natural_handler : Natural g (Handler.relocate g.location) handler := by
  refine .map (.seq (.skip (.seq (.skip (natural_name g) (.commit .token))
    (.optional (.rule .parameters))) (.commit .token)) (.commit (natural_body g))) ?_
  rintro ⟨⟨⟨value, location⟩, parameters⟩, body⟩
  cases parameters <;> rfl

private theorem natural_structItem : Natural g (StructItem.relocate g.location) structItem :=
  .choice ⟨.map (.rule .memberDeclaration) fun _ ↦ rfl,
    .map (.rule .handlerDeclaration) fun _ ↦ rfl⟩

private theorem membersOf_relocate (items : List StructItem) :
    membersOf (items.map (StructItem.relocate g.location)) =
      (membersOf items).map (Member.relocate g.location) := by
  unfold membersOf
  rw [List.filterMap_map, List.map_filterMap]
  exact List.filterMap_congr fun item _ ↦ by cases item <;> rfl

private theorem handlersOf_relocate (items : List StructItem) :
    handlersOf (items.map (StructItem.relocate g.location)) =
      (handlersOf items).map (Handler.relocate g.location) := by
  unfold handlersOf
  rw [List.filterMap_map, List.map_filterMap]
  exact List.filterMap_congr fun item _ ↦ by cases item <;> rfl

private theorem natural_struct : Natural g (Struct.relocate g.location) struct := by
  have hitem : Natural g (StructItem.relocate g.location) (.rule .structItem) := .rule .structItem
  have hitems := hitem.block (StructItem.location_relocate g.location)
  refine .map (.seq (.skip (.skip (.seq .token (.commit (natural_name g))) (.commit .token))
    (.commit (.many1 .token))) (.commit (.nonEmpty (.commitAs hitems rfl)))) ?_
  rintro ⟨⟨word, value, location⟩, items⟩
  simp only [Prod.map, Struct.relocate, membersOf_relocate, handlersOf_relocate, id]
  rfl

private theorem natural_program : Natural g (Program.relocate g.location) program :=
  .map (.seq .here (.skip (.skipLeft (.many .token) (.many (.skip (.rule .structDeclaration)
    (.many .token)))) (.commit .token))) fun _ ↦ rfl

/-- Every production is natural. -/
theorem natural_production (rule : Rule) : Natural g (g.result rule.family) (production rule) := by
  cases rule with
  | program => exact natural_program g
  | structDeclaration => exact natural_struct g
  | structItem => exact natural_structItem g
  | memberDeclaration => exact natural_member g
  | handlerDeclaration => exact natural_handler g
  | parameters => exact .commaSeparated (natural_parameter g)
  | statement => exact natural_anyStatement g
  | statementBlock =>
    exact .nonEmpty (.block (.rule .statement) (Statement.location_relocate g.location))
  | path => exact natural_anyPath g
  | expression => exact .choice ⟨.rule .ifExpression, .rule .application⟩
  | ifExpression => exact natural_conditional g
  | application => exact natural_application g
  | xor => exact natural_ladder g .xor
  | or => exact natural_ladder g .or
  | and => exact natural_ladder g .and
  | equality => exact natural_ladder g .equality
  | relation => exact natural_ladder g .relation
  | additive => exact natural_ladder g .additive
  | multiplicative => exact natural_ladder g .multiplicative
  | unary => exact natural_unary g
  | property => exact natural_propertyChain g
  | atom => exact natural_atom g
  | pattern => exact natural_anyPattern g
  | typeExpression => exact natural_anyType g

/-! ### Rules -/

/-- Without memory, a rule answers on moved tokens what it answers, moved. -/
theorem call_relocates (tokens : Array Token) (depth : Nat) (rule : Rule) :
    Step.Relocates g (g.result rule.family) ⟨tokens, false⟩ (call depth rule)
      (call depth rule) := by
  induction depth generalizing rule with
  | zero => exact fun _ ↦ rfl
  | succ depth ih => exact (natural_production g rule).run_relocates ih

/-- Without memory, a parse of a rule answers on moved tokens what it answers, moved. -/
theorem parse_relocates (tokens : Array Token) (rule : Rule) :
    Step.Relocates g (g.result rule.family) ⟨tokens, false⟩ (parse (.rule rule))
      (parse (.rule rule)) := by
  have hdepth : depthBound (g.input ⟨tokens, false⟩) = depthBound ⟨tokens, false⟩ := by
    unfold depthBound Reindentation.input
    rw [Array.size_map]
  intro s
  unfold parse
  rw [hdepth]
  exact call_relocates g tokens _ rule s

/-- Parsing depends on locations through the order of columns: on moved tokens, inside a block whose
column is moved, a rule has the same outcome with all locations moved and ends at the same
position. -/
theorem parse_relocate (g : Reindentation) (tokens : Array Token) (memoize memoize' : Bool)
    (rule : Rule) {s t : State} (hposition : t.position = s.position)
    (hindent : t.indent = g.column s.indent) (hs : Filled ⟨tokens, memoize⟩ s.table)
    (ht : Filled ⟨tokens.map g.token, memoize'⟩ t.table) :
    (parse (.rule rule) ⟨tokens.map g.token, memoize'⟩ t).map
        (fun (outcome, reached) ↦ (outcome, reached.position)) =
      ((parse (.rule rule) ⟨tokens, memoize⟩ s).map
        fun (outcome, reached) ↦ (outcome, reached.position)).map
          fun (outcome, stop) ↦ (g.outcome (g.result rule.family) outcome, stop) := by
  have hposition' : (g.state s).position = t.position := hposition.symm
  have hindent' : (g.state s).indent = t.indent := (g.indent_state s).trans hindent.symm
  have hmoved : parse (.rule rule) ⟨tokens.map g.token, false⟩ (g.state s) =
      g.answer (g.result rule.family) (parse (.rule rule) ⟨tokens, false⟩ s) :=
    parse_relocates g tokens rule s
  rw [← parse_rule_position tokens memoize rule rfl rfl hs.sound,
    ← parse_rule_position (tokens.map g.token) memoize' rule hposition' hindent' ht.sound, hmoved]
  cases parse (.rule rule) ⟨tokens, false⟩ s <;> rfl

-- Columns are doubled and lines follow one line later.
private def doubled : Reindentation where
  column := (2 * ·)
  location
    | .concrete file row column offset =>
      .concrete file (row + 1) (2 * column) (offset + row * column)
    | .generated file => .generated file
  strictMono := fun _ _ h ↦ Nat.mul_lt_mul_of_pos_left h Nat.two_pos
  column_zero := rfl
  location_generated _ := rfl
  location_concrete _ row c offset := ⟨row + 1, offset + row * c, rfl⟩

-- The tokens of a line that holds a path.
private def pathLine : Array Token :=
  #[⟨⟨.identifier, .text "a"⟩, .concrete "f" 1 3 2⟩, ⟨⟨.period, .none⟩, .concrete "f" 1 4 3⟩,
    ⟨⟨.identifier, .text "b"⟩, .concrete "f" 1 5 4⟩, ⟨⟨.endOfLine, .none⟩, .concrete "f" 1 6 5⟩]

/-- A path in a block in the third column is read as well where the block stands in the sixth. -/
theorem parse_relocate_path :
    ∃ found, (parse (.rule .path) ⟨pathLine.map doubled.token, false⟩ ⟨0, [6], .empty⟩).map
        (fun (outcome, reached) ↦ (outcome, reached.position)) =
      .ok (.ok (found.relocate doubled.location), 3) ∧
      (parse (.rule .path) ⟨pathLine, true⟩ ⟨0, [3], .empty⟩).map
        (fun (outcome, reached) ↦ (outcome, reached.position)) = .ok (.ok found, 3) := by
  obtain ⟨found, hfound⟩ : ∃ found, (parse (.rule .path) ⟨pathLine, true⟩ ⟨0, [3], .empty⟩).map
      (fun (outcome, reached) ↦ (outcome, reached.position)) = .ok (.ok found, 3) := ⟨_, rfl⟩
  have hmoved := parse_relocate doubled pathLine true false .path (s := ⟨0, [3], .empty⟩)
    (t := ⟨0, [6], .empty⟩) rfl rfl .empty .empty
  rw [hfound] at hmoved
  exact ⟨found, hmoved, hfound⟩

end Grammar

end Offside
