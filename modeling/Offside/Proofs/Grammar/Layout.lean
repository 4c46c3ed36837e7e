import Offside.Proofs.Grammar.Remembering
import Offside.Proofs.Tree.LaidOut
import Offside.Reading

/-!
# The layout of programs

The law of the grammar on columns. A block opens in a column deeper than the innermost open one and
takes statements that begin in its column, a further condition is read in the column of the
innermost open block, and whatever stands inside brackets leaves the open blocks as they are. So
each rule yields what is laid out for the innermost block where it began (`LaidIn`), remembered or
not, and every program that is read from a source text is laid out (`Program.laidOut_of_ofSource`).
-/

namespace Offside

open Packrat

/-! ### Where an expression begins -/

/-- The location is that of the token at the position, or behind parentheses that open there. -/
inductive Packrat.Input.Leads (input : Input) : Nat → Location → Prop where
  | here (position : Nat) : input.Leads position (input.tokenAt position).location
  | behind {position : Nat} {location : Location} : (input.tokenAt position).kind = .leftParen →
      input.Leads (input.after position) location → input.Leads position location

/-- What is behind parentheses stands no further left than they do. -/
theorem Packrat.Input.Leads.isFrom {input : Input} {position column : Nat} {location : Location}
    (hopens : ∀ p, Token.Opens (input.tokenAt p) (input.tokenAt (input.after p)))
    (h : input.Leads position location)
    (hcolumn : (input.tokenAt position).location.IsFrom column) : location.IsFrom column := by
  induction h with
  | here => exact hcolumn
  | behind hparen _ ih =>
    obtain ⟨own, hown, hle⟩ := hcolumn
    obtain ⟨_, hown', hright⟩ := hopens _ hparen
    cases hown.symm.trans hown'
    exact ih (hright.mono (Nat.le_succ_of_le hle))

/-- In the tokens of a source text, parentheses stand left of what they open. -/
theorem Packrat.Input.opens_of_ofSource {file source : String} {tokens : List Token}
    (h : Token.ofSource file source = .ok tokens) (memoize : Bool) (position : Nat) :
    Token.Opens (Input.tokenAt ⟨tokens.toArray, memoize⟩ position)
      (Input.tokenAt ⟨tokens.toArray, memoize⟩
        (Input.after ⟨tokens.toArray, memoize⟩ position)) := by
  have hchain := List.isChain_iff_getElem.1 (Token.isChain_of_ofSource h)
  obtain ⟨location, hlast⟩ := Token.getLast?_of_ofSource h
  rw [List.getLast?_eq_getElem?] at hlast
  simp only [Input.tokenAt, Input.after, List.getElem?_toArray, List.size_toArray]
  by_cases hnext : position + 1 < tokens.length
  · rw [if_pos (by omega), List.getElem?_eq_getElem (by omega), List.getElem?_eq_getElem hnext]
    exact hchain position hnext
  · -- The end of the input, or what is read behind it, opens nothing.
    intro hkind
    obtain heq | hbeyond : position = tokens.length - 1 ∨ tokens.length ≤ position := by omega
    · rw [heq, hlast] at hkind
      cases hkind
    · rw [List.getElem?_eq_none hbeyond] at hkind
      cases hkind

namespace Grammar

/-! ### The law of a rule -/

/-- An expression from a position on is laid out in the innermost block, which stands in the column
`indent`. -/
structure LaidFrom (input : Input) (indent start : Nat) (found : Expression) : Prop where
  laidOut : found.LaidOut indent
  leads : input.Leads start found.location

/-- What a rule yields from a position on is laid out in the innermost block, which stands in the
column `indent`. -/
def LaidIn (input : Input) (indent : Nat) : (rule : Rule) → (start stop : Nat) → rule.Result → Prop
  | .program, _, _, found => ∀ struct ∈ found.structs, struct.LaidOut indent
  | .structDeclaration, _, _, found => found.LaidOut indent
  | .structItem, start, _, found =>
    found.location = (input.tokenAt start).location ∧
      ∀ declared, found = .handler declared → declared.body.LaidOut indent
  | .memberDeclaration, start, _, found => found.location = (input.tokenAt start).location
  | .handlerDeclaration, start, _, found =>
    found.location = (input.tokenAt start).location ∧ found.body.LaidOut indent
  | .statement, start, _, found =>
    (input.tokenAt start).location.column? = some indent → found.LaidOut indent
  | .statementBlock, _, _, found =>
    ∃ column, indent < column ∧ statementsLaidOut column found
  | .path, start, _, found => found.location = (input.tokenAt start).location
  | .parameters, _, _, _ | .pattern, _, _, _ | .typeExpression, _, _, _ => True
  | .expression, start, _, found | .ifExpression, start, _, found
  | .application, start, _, found | .xor, start, _, found | .or, start, _, found
  | .and, start, _, found | .equality, start, _, found | .relation, start, _, found
  | .additive, start, _, found | .multiplicative, start, _, found | .unary, start, _, found
  | .property, start, _, found | .atom, start, _, found => LaidFrom input indent start found

variable {input : Input} {indent p q : Nat}

/-! ### Bodies and conditionals -/

private theorem laidOut_body {found : Block}
    (h : body.Accepts input (LaidIn input) indent p q found) : found.LaidOut indent := by
  obtain ⟨⟨colon, statements⟩, ⟨_, -, hblock⟩, rfl⟩ := h
  exact hblock

private theorem laidOut_elseIf {found : ElseIf}
    (h : elseIf.Accepts input (LaidIn input) indent p q found) : found.LaidOut indent := by
  obtain ⟨⟨⟨word, condition⟩, body⟩, ⟨_, ⟨_, hhead, hcondition⟩, hbody⟩, rfl⟩ := h
  obtain ⟨⟨_, _⟩, ⟨_, ⟨hcolumn, -, rfl, -⟩, -⟩, rfl⟩ := hhead
  exact ⟨hcolumn, hcondition.laidOut, laidOut_body hbody⟩

private theorem laid_conditional {found : Expression}
    (h : conditional.Accepts input (LaidIn input) indent p q found) :
    LaidFrom input indent p found := by
  obtain ⟨⟨⟨⟨⟨word, condition⟩, body⟩, alternatives⟩, otherwise⟩, ⟨_, h, hotherwise⟩, rfl⟩ := h
  obtain ⟨_, ⟨_, ⟨_, ⟨-, rfl, -⟩, hcondition⟩, hbody⟩, halternatives⟩ := h
  refine ⟨⟨hcondition.laidOut, laidOut_body hbody, ?_, ?_⟩, .here p⟩
  · refine elseIfsLaidOut_iff.2 fun alternative hmem ↦ ?_
    obtain ⟨_, _, h⟩ := Row.exists_of_mem halternatives hmem
    exact laidOut_elseIf h
  · obtain ⟨rfl, -⟩ | ⟨last, rfl, ⟨_, ⟨_, -, hlast⟩, rfl⟩⟩ := hotherwise
    · trivial
    · exact laidOut_body hlast

/-! ### Messages and operators -/

private theorem laid_application {found : Expression}
    (h : application.Accepts input (LaidIn input) indent p q found) :
    LaidFrom input indent p found := by
  obtain ⟨⟨receiver, messages⟩, ⟨_, hreceiver, hmessages⟩, rfl⟩ := h
  refine List.foldlRecOn (motive := LaidFrom input indent p) messages _ hreceiver
    fun left hleft message hmem ↦ ?_
  obtain ⟨_, _, -, hmessage⟩ := Row.exists_of_mem hmessages hmem
  exact ⟨⟨hleft.laidOut, LaidFrom.laidOut hmessage⟩, hleft.leads⟩

private theorem laid_operand {level : Level} {found : Expression}
    (h : (operandOf level).Accepts input (LaidIn input) indent p q found) :
    LaidFrom input indent p found := by
  cases level <;> exact h

private theorem laid_applied {level : Level} {left right : Expression} {operator : BinaryOperator}
    {m : Nat} (hleft : LaidFrom input indent p left)
    (h : ((operatorOf level).seq (operandOf level).commit).Accepts input (LaidIn input) indent m q
      (operator, right)) :
    LaidFrom input indent p (applied left operator right) := by
  obtain ⟨_, -, hright⟩ := h
  exact ⟨⟨hleft.laidOut, (laid_operand hright).laidOut⟩, hleft.leads⟩

private theorem laid_ladder {level : Level} {found : Expression}
    (h : (ladder level).Accepts input (LaidIn input) indent p q found) :
    LaidFrom input indent p found := by
  unfold ladder operands at h
  dsimp only at h
  split at h
  · obtain ⟨⟨first, rest⟩, ⟨_, hfirst, hrest⟩, rfl⟩ := h
    refine List.foldlRecOn (motive := LaidFrom input indent p) rest _ (laid_operand hfirst)
      fun left hleft next hmem ↦ ?_
    obtain ⟨_, _, hnext⟩ := Row.exists_of_mem hrest hmem
    exact laid_applied hleft hnext
  · obtain ⟨⟨first, rest⟩, ⟨_, hfirst, hrest⟩, rfl⟩ := h
    obtain ⟨rfl, -⟩ | ⟨next, rfl, hnext⟩ := hrest
    · exact laid_operand hfirst
    · exact laid_applied (laid_operand hfirst) hnext

private theorem laid_signed {operator : UnaryOperator} {found : Expression}
    (h : (signed operator).Accepts input (LaidIn input) indent p q found) :
    LaidFrom input indent p found := by
  obtain ⟨⟨sign, operand⟩, ⟨_, ⟨-, rfl, -⟩, hoperand⟩, rfl⟩ := h
  replace hoperand : LaidFrom input indent _ operand := hoperand
  exact ⟨hoperand.laidOut, .here p⟩

private theorem laid_unary {found : Expression}
    (h : unary.Accepts input (LaidIn input) indent p q found) :
    LaidFrom input indent p found := by
  obtain h | h | h | h := h
  · exact laid_signed h
  · exact laid_signed h
  · exact h
  · exact h.elim

private theorem laid_propertyChain {found : Expression}
    (h : propertyChain.Accepts input (LaidIn input) indent p q found) :
    LaidFrom input indent p found := by
  obtain ⟨⟨root, names⟩, ⟨_, hroot, -⟩, rfl⟩ := h
  exact List.foldlRecOn (motive := LaidFrom input indent p) names _ hroot
    fun inner hinner _ _ ↦ ⟨hinner.laidOut, hinner.leads⟩

/-! ### Atoms -/

private theorem laid_doBlock {found : Expression}
    (h : doBlock.Accepts input (LaidIn input) indent p q found) :
    LaidFrom input indent p found := by
  obtain ⟨⟨word, ⟨location, statements⟩⟩, ⟨_, ⟨-, rfl, -⟩, hbody⟩, rfl⟩ := h
  have hbody : Block.LaidOut indent ⟨location, statements⟩ := laidOut_body hbody
  exact ⟨hbody, .here p⟩

private theorem laid_creation {found : Expression}
    (h : creation.Accepts input (LaidIn input) indent p q found) :
    LaidFrom input indent p found := by
  obtain ⟨⟨word, type⟩, ⟨_, ⟨-, rfl, -⟩, -⟩, rfl⟩ := h
  exact ⟨trivial, .here p⟩

private theorem laidOut_argument {found : Argument}
    (h : argument.Accepts input (LaidIn input) indent p q found) : found.LaidOut indent := by
  obtain ⟨⟨⟨key, location⟩, value⟩, ⟨_, -, hvalue⟩, rfl⟩ := h
  exact LaidFrom.laidOut hvalue

private theorem laid_message {found : Expression}
    (h : message.Accepts input (LaidIn input) indent p q found) :
    LaidFrom input indent p found := by
  obtain ⟨_, ⟨⟨⟨⟨opening, header⟩, arguments⟩, closing⟩, ⟨_, h, -⟩, rfl⟩, rfl⟩ := h
  obtain ⟨_, ⟨_, ⟨-, rfl, -⟩, -⟩, harguments⟩ := h
  refine ⟨argumentsLaidOut_iff.2 fun argument hmem ↦ ?_, .here p⟩
  obtain ⟨_, _, h⟩ := Parser.exists_of_listed harguments hmem
  exact laidOut_argument h

private theorem laid_tuple {found : Expression}
    (h : tuple.Accepts input (LaidIn input) indent p q found) :
    LaidFrom input indent p found := by
  obtain ⟨_, ⟨⟨⟨⟨opening, first⟩, rest⟩, closing⟩, ⟨_, h, -⟩, rfl⟩, rfl⟩ := h
  obtain ⟨_, ⟨_, ⟨-, rfl, -⟩, hfirst⟩, ⟨comma, _⟩, ⟨_, -, hrest⟩, rfl⟩ := h
  refine ⟨expressionsLaidOut_iff.2 (List.forall_mem_cons.2 ⟨LaidFrom.laidOut hfirst, ?_⟩), .here p⟩
  intro expression hmem
  obtain ⟨_, _, h⟩ := Parser.exists_of_listed hrest hmem
  exact LaidFrom.laidOut h

private theorem laid_list {found : Expression}
    (h : list.Accepts input (LaidIn input) indent p q found) :
    LaidFrom input indent p found := by
  obtain ⟨_, ⟨⟨⟨opening, elements⟩, closing⟩, ⟨_, ⟨_, ⟨-, rfl, -⟩, helements⟩, -⟩, rfl⟩, rfl⟩ := h
  refine ⟨expressionsLaidOut_iff.2 fun expression hmem ↦ ?_, .here p⟩
  obtain ⟨_, _, h⟩ := Parser.exists_of_listed helements hmem
  exact LaidFrom.laidOut h

-- Only here does an expression not begin at its first token.
private theorem laid_grouped {found : Expression}
    (h : grouped.Accepts input (LaidIn input) indent p q found) :
    LaidFrom input indent p found := by
  obtain ⟨⟨_, closing⟩, ⟨_, ⟨⟨opening, inner⟩, ⟨_, ⟨hkind, rfl, rfl⟩, hinner⟩, rfl⟩, -⟩, rfl⟩ := h
  replace hinner : LaidFrom input indent (input.after p) found := hinner
  exact ⟨hinner.laidOut, .behind hkind hinner.leads⟩

private theorem laid_literal {found : Expression}
    (h : literal.Accepts input (LaidIn input) indent p q found) :
    LaidFrom input indent p found := by
  obtain h | h | h | h | h | h | h := h
  on_goal 7 => exact h.elim
  all_goals
    obtain ⟨⟨value, location⟩, ⟨-, -, rfl, -⟩, rfl⟩ := h
    exact ⟨trivial, .here p⟩

private theorem laid_atom {found : Expression}
    (h : atom.Accepts input (LaidIn input) indent p q found) :
    LaidFrom input indent p found := by
  obtain h | h | h | h | h | h | h | h := h
  · exact laid_doBlock h
  · exact laid_creation h
  · exact laid_message h
  · exact laid_tuple h
  · exact laid_list h
  · exact laid_literal h
  · exact laid_grouped h
  · exact h.elim

/-! ### Statements -/

private theorem location_path {found : Path}
    (h : anyPath.Accepts input (LaidIn input) indent p q found) :
    found.location = (input.tokenAt p).location := by
  obtain ⟨⟨⟨root, location⟩, properties⟩, ⟨_, ⟨-, -, rfl, -⟩, -⟩, rfl⟩ := h
  exact List.foldlRecOn (motive := fun found : Path ↦ found.location = (input.tokenAt p).location)
    properties _ rfl fun inner hinner _ _ ↦ hinner

private theorem laidOut_statement {found : Statement}
    (hopens : ∀ p, Token.Opens (input.tokenAt p) (input.tokenAt (input.after p)))
    (h : anyStatement.Accepts input (LaidIn input) indent p q found)
    (hcolumn : (input.tokenAt p).location.column? = some indent) : found.LaidOut indent := by
  obtain h | h | h | h | h | h := h
  · obtain ⟨_, ⟨⟨⟨⟨word, pattern⟩, value⟩, ending⟩, ⟨_, h, -⟩, rfl⟩, rfl⟩ := h
    obtain ⟨_, ⟨⟨⟨_, _⟩, assign⟩, ⟨_, ⟨_, ⟨-, rfl, -⟩, -⟩, -⟩, heq⟩, hvalue⟩ := h
    cases heq
    exact ⟨hcolumn, LaidFrom.laidOut hvalue⟩
  · obtain ⟨_, ⟨⟨⟨path, value⟩, ending⟩, ⟨_, h, -⟩, rfl⟩, rfl⟩ := h
    obtain ⟨_, ⟨⟨_, assign⟩, ⟨_, hpath, -⟩, rfl⟩, hvalue⟩ := h
    have hlocation : path.location = (input.tokenAt p).location := hpath
    exact ⟨hlocation ▸ hcolumn, LaidFrom.laidOut hvalue⟩
  · obtain ⟨⟨⟨⟨word, pattern⟩, iterable⟩, body⟩, ⟨_, h, hbody⟩, rfl⟩ := h
    obtain ⟨_, ⟨⟨⟨_, _⟩, second⟩, ⟨_, ⟨_, ⟨-, rfl, -⟩, -⟩, -⟩, heq⟩, hiterable⟩ := h
    cases heq
    exact ⟨hcolumn, LaidFrom.laidOut hiterable, laidOut_body hbody⟩
  · obtain ⟨⟨⟨word, condition⟩, body⟩, ⟨_, ⟨_, ⟨-, rfl, -⟩, hcondition⟩, hbody⟩, rfl⟩ := h
    exact ⟨hcolumn, LaidFrom.laidOut hcondition, laidOut_body hbody⟩
  · obtain ⟨value, ⟨⟨_, ending⟩, ⟨_, hvalue, -⟩, rfl⟩, rfl⟩ := h
    replace hvalue : LaidFrom input indent p value := hvalue
    exact ⟨hvalue.leads.isFrom hopens ⟨indent, hcolumn, Nat.le_refl _⟩, hvalue.laidOut⟩
  · exact h.elim

private theorem laid_statements {found : List Statement}
    (h : statements.Accepts input (LaidIn input) indent p q found) :
    ∃ column, indent < column ∧ statementsLaidOut column found := by
  obtain ⟨hne, ⟨rfl, -⟩ | ⟨column, hdeeper, hrow⟩⟩ := h
  · exact absurd rfl hne
  · refine ⟨column, hdeeper, statementsLaidOut_iff.2 fun statement hmem ↦ ?_⟩
    obtain ⟨_, _, hcolumn, -, _, _, hstatement, -⟩ := Row.exists_of_mem hrow hmem
    exact hstatement hcolumn

/-! ### Declarations -/

private theorem location_member {found : Member}
    (h : member.Accepts input (LaidIn input) indent p q found) :
    found.location = (input.tokenAt p).location := by
  obtain ⟨_, ⟨⟨⟨⟨value, location⟩, type⟩, lineEnd⟩, ⟨_, h, -⟩, rfl⟩, rfl⟩ := h
  obtain ⟨_, ⟨⟨⟨_, _⟩, colons⟩, ⟨_, ⟨-, -, rfl, -⟩, -⟩, heq⟩, -⟩ := h
  cases heq
  rfl

private theorem laid_handler {found : Handler}
    (h : handler.Accepts input (LaidIn input) indent p q found) :
    found.location = (input.tokenAt p).location ∧ found.body.LaidOut indent := by
  obtain ⟨⟨⟨⟨value, location⟩, parameters⟩, body⟩, ⟨_, h, hbody⟩, rfl⟩ := h
  obtain ⟨⟨_, closing⟩, ⟨_, h, -⟩, heq⟩ := h
  cases heq
  obtain ⟨_, ⟨⟨⟨_, _⟩, opening⟩, ⟨_, ⟨-, -, rfl, -⟩, -⟩, heq⟩, -⟩ := h
  cases heq
  exact ⟨rfl, laidOut_body hbody⟩

private theorem laid_structItem {found : StructItem}
    (h : structItem.Accepts input (LaidIn input) indent p q found) :
    LaidIn input indent .structItem p q found := by
  obtain h | h | h := h
  · obtain ⟨declared, hdeclared, rfl⟩ := h
    exact ⟨hdeclared, by simp⟩
  · obtain ⟨declared, ⟨hlocation, hbody⟩, rfl⟩ := h
    exact ⟨hlocation, by rintro _ ⟨⟩; exact hbody⟩
  · exact h.elim

private theorem mem_membersOf {items : List StructItem} {declared : Member}
    (h : declared ∈ membersOf items) : .member declared ∈ items := by
  obtain ⟨item, hitem, hdeclared⟩ := List.mem_filterMap.1 h
  cases item with
  | member => cases hdeclared; exact hitem
  | handler => cases hdeclared

private theorem mem_handlersOf {items : List StructItem} {declared : Handler}
    (h : declared ∈ handlersOf items) : .handler declared ∈ items := by
  obtain ⟨item, hitem, hdeclared⟩ := List.mem_filterMap.1 h
  cases item with
  | member => cases hdeclared
  | handler => cases hdeclared; exact hitem

private theorem laidOut_struct {found : Struct}
    (h : struct.Accepts input (LaidIn input) indent p q found) : found.LaidOut indent := by
  obtain ⟨⟨⟨word, value, _⟩, items⟩, ⟨_, -, hne, ⟨rfl, -⟩ | ⟨column, hdeeper, hrow⟩⟩, rfl⟩ := h
  · exact absurd rfl hne
  have hitem {item : StructItem} (hmem : item ∈ items) :
      item.location.column? = some column ∧
        ∀ declared, item = .handler declared → declared.body.LaidOut column := by
    obtain ⟨_, _, hcolumn, -, _, _, ⟨hlocation, hbody⟩, -⟩ := Row.exists_of_mem hrow hmem
    exact ⟨hlocation ▸ hcolumn, hbody⟩
  refine ⟨column, hdeeper, fun member hmem ↦ ?_, fun handler hmem ↦ ?_⟩
  · exact (hitem (mem_membersOf hmem)).1
  · obtain ⟨hcolumn, hbody⟩ := hitem (mem_handlersOf hmem)
    exact ⟨hcolumn, hbody handler rfl⟩

private theorem laid_program {found : Program}
    (h : program.Accepts input (LaidIn input) indent p q found) :
    ∀ struct ∈ found.structs, struct.LaidOut indent := by
  obtain ⟨⟨location, structs⟩, ⟨_, -, h⟩, rfl⟩ := h
  obtain ⟨⟨_, last⟩, ⟨_, ⟨⟨ends, _⟩, ⟨_, -, hstructs⟩, rfl⟩, -⟩, rfl⟩ := h
  intro struct hmem
  obtain ⟨_, _, ⟨_, ends⟩, ⟨_, hstruct, -⟩, rfl⟩ := Row.exists_of_mem hstructs hmem
  exact hstruct

/-! ### Rules and whole programs -/

/-- What a production reads is laid out, if what the rules inside read is. -/
theorem laid_of_accepts {rule : Rule} {found : rule.Result}
    (hopens : ∀ p, Token.Opens (input.tokenAt p) (input.tokenAt (input.after p)))
    (h : (production rule).Accepts input (LaidIn input) indent p q found) :
    LaidIn input indent rule p q found := by
  cases rule with
  | program => exact laid_program h
  | structDeclaration => exact laidOut_struct h
  | structItem => exact laid_structItem h
  | memberDeclaration => exact location_member h
  | handlerDeclaration => exact laid_handler h
  | parameters | pattern | typeExpression => trivial
  | statement => exact laidOut_statement hopens h
  | statementBlock => exact laid_statements h
  | path => exact location_path h
  | expression =>
    obtain h | h | h := h
    · exact h
    · exact h
    · exact h.elim
  | ifExpression => exact laid_conditional h
  | application => exact laid_application h
  | xor | or | and | equality | relation | additive | multiplicative => exact laid_ladder h
  | unary => exact laid_unary h
  | property => exact laid_propertyChain h
  | atom => exact laid_atom h

end Grammar

/-- Every program that is read from a source text is laid out. -/
theorem Program.laidOut_of_ofSource {file source : String} {memoize : Bool} {program : Program}
    (h : Program.ofSource file source memoize = .ok program) : program.LaidOut := by
  obtain ⟨tokens, reached, htokens, hparse⟩ := Program.ofSource_eq_ok.1 h
  have hopens := Input.opens_of_ofSource htokens false
  exact (Grammar.parse_induction tokens.toArray (Grammar.laid_of_accepts hopens)
    (Grammar.sound_empty _) hparse).1

private theorem exists_of_toOption {source : String}
    (h : (Program.ofSource "f" source true).toOption.isSome = true) :
    ∃ program, Program.ofSource "f" source true = .ok program := by
  cases hread : Program.ofSource "f" source true with
  | error error =>
    rw [hread] at h
    cases h
  | ok program => exact ⟨program, rfl⟩

/-- A conditional inside parentheses is laid out, with its further condition in their column. -/
theorem Program.laidOut_of_ofSource_parentheses :
    ∃ program,
      Program.ofSource "f" "struct A:\n c(x):\n  (if x:\n    x\n  else if x:\n   x\n  )\n" true =
        .ok program ∧
      program.LaidOut := by
  refine (exists_of_toOption ?_).imp fun program hread ↦ ⟨hread, Program.laidOut_of_ofSource hread⟩
  decide +kernel

end Offside
