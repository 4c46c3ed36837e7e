import Offside.Proofs.Grammar.Derivation
import Offside.Proofs.Grammar.Remembering
import Offside.Proofs.Packrat.Spelling
import Offside.Proofs.Session.Transparency
import Offside.Proofs.Source.Scan

/-!
# The parser reads what the grammar derives

Production by production, the rows of tokens that a production spells are derived from it if those
of the rules inside are (`derives_of_spells`). A success of a rule, whatever was read and remembered
before it, has thus read a row that the rule derives as the result (`parse_derives`).
-/

namespace Offside.Grammar

open Packrat Offside.Derivation

/-- What is known of the rows of the rules inside a production. -/
structure Formed (rule : Rule) (tokens : List Token) (found : rule.Result) : Prop where
  derives : Derives rule tokens found
  ne_nil : tokens ≠ []
  endFree : EndFree tokens

variable {α : Type} {before : Prop} {tokens : List Token}

/-! ### Lists -/

private theorem many_of_run {Item : Prop → List Token → α → Prop} {Other : List Token → α → Prop}
    (hitem : ∀ before tokens item, Item before tokens item → Other tokens item)
    {items : List α} (h : Run Item before tokens items) : Many Other tokens items := by
  induction h with
  | nil => exact .nil
  | cons hfirst _ ih => exact .cons (hitem _ _ _ hfirst) ih

private theorem foldl_of_run {β : Type} {Item : Prop → List Token → β → Prop}
    {Left : List Token → α → Prop} {step : α → β → α}
    (hstep : ∀ {front left before first item}, Left front left → (before ↔ EndsLine front) →
      Item before first item → first ≠ [] ∧ Left (front ++ first) (step left item))
    {front : List Token} {left : α} {items : List β} (hleft : Left front left)
    (hbefore : before ↔ EndsLine front) (h : Run Item before tokens items) :
    Left (front ++ tokens) (items.foldl step left) := by
  induction h generalizing front left with
  | nil =>
    rw [List.append_nil]
    exact hleft
  | cons hfirst _ ih =>
    obtain ⟨hne, hnext⟩ := hstep hleft hbefore hfirst
    rw [← List.append_assoc]
    refine ih hnext ?_
    rw [endsLineFrom_iff hne, endsLine_append hne]

private theorem lines_of_run {Item : Prop → List Token → α → Prop} {Other : List Token → α → Prop}
    (hitem : ∀ before tokens item, Item before tokens item →
      ∃ front ends, tokens = front ++ ends ∧ Other front item ∧ LineEnds ends)
    {items : List α} (h : Run Item before tokens items) : Lines Other tokens items := by
  induction h with
  | nil => exact .nil
  | cons hfirst _ ih =>
    obtain ⟨front, ends, rfl, hfirst, hends⟩ := hitem _ _ _ hfirst
    rw [List.append_assoc]
    exact .cons hfirst hends ih

section Lists

variable {item : Parser α} {Item : List Token → α → Prop}

private theorem commas_of_spells
    {found : List α} (h : (Parser.commaSeparated item).Spells Formed before tokens found)
    (hitem : ∀ {before tokens found}, item.Spells Formed before tokens found → Item tokens found) :
    Commas Item tokens found := by
  obtain ⟨⟨first, rest⟩, ⟨front, back, rfl, hfirst, hrest⟩, rfl⟩ := h
  replace hfirst := hitem hfirst
  change Run _ _ back rest at hrest
  generalize EndsLineFrom before front = middle at hrest
  induction hrest generalizing front first with
  | nil =>
    rw [List.append_nil]
    exact .one hfirst
  | cons hnext _ ih =>
    obtain ⟨⟨comma, second⟩, ⟨_, tokens, rfl, ⟨hcomma, rfl⟩, hsecond⟩, rfl⟩ := hnext
    exact .cons hfirst hcomma (ih _ _ (hitem hsecond))

private theorem listed_of_spells
    {found : Option (List α)}
    (h : (Parser.optional (.commaSeparated item)).Spells Formed before tokens found)
    (hitem : ∀ {before tokens found}, item.Spells Formed before tokens found → Item tokens found) :
    Listed Item tokens (found.getD []) := by
  obtain ⟨rfl, rfl⟩ | ⟨items, rfl, h⟩ := h
  · exact .none
  · exact .some (commas_of_spells h hitem)

private theorem blockOf_of_spells {locate : α → Location}
    {found : List α} (h : (Parser.block locate item).Spells Formed before tokens found)
    (hne : found ≠ [])
    (hitem : ∀ {before tokens found}, item.Spells Formed before tokens found → Item tokens found) :
    BlockOf Item tokens found := by
  obtain ⟨rfl, -⟩ | ⟨ends, lines, rfl, hends, hlines⟩ := h
  · exact absurd rfl hne
  · refine .mk hends (lines_of_run (fun _ _ _ hline ↦ ?_) hlines) hne
    obtain ⟨front, ends, rfl, h, hends⟩ := hline
    exact ⟨front, ends, rfl, hitem h, hends⟩

end Lists

private theorem lineEnds_of_run {ends : List Token}
    (h : Run ((Parser.token .endOfLine).Spells Formed) before tokens ends) : LineEnds tokens := by
  induction h with
  | nil => exact fun _ h ↦ nomatch h
  | cons hfirst _ ih =>
    obtain ⟨hkind, rfl⟩ := hfirst
    intro token htoken
    obtain rfl | htoken := List.mem_cons.1 htoken
    · exact hkind
    · exact ih token htoken

private theorem ne_nil_of_run {ends : List Token}
    (h : Run ((Parser.token .endOfLine).Spells Formed) before tokens ends) (hne : ends ≠ []) :
    tokens ≠ [] := by
  cases h with
  | nil => exact absurd rfl hne
  | cons hfirst _ =>
    obtain ⟨-, rfl⟩ := hfirst
    exact nofun

private theorem name_of_spells {found : String × Location}
    (h : name.Spells Formed False tokens found) :
    ∃ word, tokens = [word] ∧ IsName word found.1 ∧ found.2 = word.location := by
  obtain ⟨word, rfl, hkind, hread, hlocation⟩ := h
  refine ⟨word, rfl, ⟨hkind, ?_⟩, hlocation⟩
  dsimp only at hread
  split at hread
  · next value hpayload =>
    cases hread
    exact hpayload
  · cases hread

/-! ### Types, patterns and paths -/

private theorem isType_of_formed {found : TypeExpr} (h : Formed .typeExpression tokens found) :
    IsType tokens found := h.derives

private theorem isType_of_spells {found : TypeExpr}
    (h : anyType.Spells Formed before tokens found) : IsType tokens found := by
  obtain h | h | h | h | h := h
  · obtain ⟨⟨⟨value, location⟩, arguments⟩, ⟨_, tokens, rfl, hname, harguments⟩, rfl⟩ := h
    obtain ⟨word, rfl, hword, rfl⟩ := name_of_spells hname
    obtain ⟨rfl, rfl⟩ | ⟨items, rfl, h⟩ := harguments
    · exact .plain hword
    · obtain ⟨⟨_, greater⟩, ⟨_, _, rfl, h, hgreater, rfl⟩, rfl⟩ := h
      obtain ⟨⟨less, items⟩, ⟨_, tokens, rfl, ⟨hless, rfl⟩, h⟩, rfl⟩ := h
      replace h : (Parser.commaSeparated typeExpr).Spells Formed _ tokens items := h
      exact .generic hword hless (commas_of_spells h fun h ↦ isType_of_formed h) hgreater
  · obtain ⟨_, ⟨⟨⟨opening, element⟩, closing⟩, ⟨_, _, rfl, h, hclosing, rfl⟩, rfl⟩, rfl⟩ := h
    obtain ⟨_, tokens, rfl, ⟨hopening, rfl⟩, helement⟩ := h
    exact .list hopening (isType_of_formed helement) hclosing
  · obtain ⟨_, ⟨⟨⟨⟨opening, first⟩, rest⟩, closing⟩, ⟨_, _, rfl, h, hclosing, rfl⟩, rfl⟩, rfl⟩ := h
    obtain ⟨_, _, rfl, ⟨_, head, rfl, ⟨hopening, rfl⟩, hfirst⟩, hrest⟩ := h
    obtain ⟨⟨comma, _⟩, ⟨_, tail, rfl, ⟨hcomma, rfl⟩, hrest⟩, rfl⟩ := hrest
    have hlist := IsType.tuple hopening (isType_of_formed hfirst) hcomma
      (listed_of_spells hrest fun h ↦ isType_of_formed h) hclosing
    simpa using hlist
  · obtain ⟨⟨periods, inner⟩, ⟨_, tokens, rfl, ⟨hperiods, rfl⟩, hinner⟩, rfl⟩ := h
    exact .variadic hperiods (isType_of_formed hinner)
  · exact h.elim

private theorem isPattern_of_formed {found : Pattern} (h : Formed .pattern tokens found) :
    IsPattern tokens found := h.derives

private theorem oneVariadic_of_ok {build : Location → List Pattern → Pattern} {opening : Location}
    {patterns : List Pattern} {found : Pattern}
    (h : withOneVariadic build opening patterns = .ok found) :
    OneVariadic patterns ∧ found = build opening patterns := by
  unfold withOneVariadic at h
  split at h
  · cases h
  · next hnone =>
    cases h
    refine ⟨?_, rfl⟩
    unfold OneVariadic
    rw [List.getElem?_eq_none_iff] at hnone
    exact hnone

private theorem isPattern_of_spells {found : Pattern}
    (h : anyPattern.Spells Formed before tokens found) : IsPattern tokens found := by
  obtain ⟨kind, h⟩ := h
  dsimp only at h
  split at h
  · obtain ⟨⟨value, location⟩, hname, rfl⟩ := h
    obtain ⟨word, rfl, hword, rfl⟩ := name_of_spells hname
    exact .name hword
  · obtain ⟨sign, ⟨hsign, rfl⟩, rfl⟩ := h
    exact .ignored hsign
  · obtain ⟨_, ⟨⟨⟨opening, patterns⟩, closing⟩, ⟨_, _, rfl, h, hclosing, rfl⟩, rfl⟩, hverdict⟩ := h
    obtain ⟨_, tokens, rfl, ⟨hopening, rfl⟩, hpatterns⟩ := h
    obtain ⟨hone, rfl⟩ := oneVariadic_of_ok hverdict
    exact .list hopening (listed_of_spells hpatterns fun h ↦ isPattern_of_formed h) hclosing hone
  · obtain ⟨_, ⟨⟨⟨⟨opening, first⟩, rest⟩, closing⟩, ⟨_, _, rfl, h, hclosing, rfl⟩, rfl⟩,
      hverdict⟩ := h
    obtain ⟨_, _, rfl, ⟨_, head, rfl, ⟨hopening, rfl⟩, hfirst⟩, hrest⟩ := h
    obtain ⟨⟨comma, _⟩, ⟨_, tail, rfl, ⟨hcomma, rfl⟩, hrest⟩, rfl⟩ := hrest
    obtain ⟨hone, rfl⟩ := oneVariadic_of_ok hverdict
    have hpattern := IsPattern.tuple hopening (isPattern_of_formed hfirst) hcomma
      (listed_of_spells hrest fun h ↦ isPattern_of_formed h)
      hclosing hone
    simpa using hpattern
  · obtain ⟨⟨periods, inner⟩, ⟨_, tokens, rfl, ⟨hperiods, rfl⟩, hinner⟩, rfl⟩ := h
    obtain ⟨rfl, rfl⟩ | ⟨inner, rfl, hinner⟩ := hinner
    · exact .variadic hperiods
    · exact .variadicInner hperiods (isPattern_of_formed hinner)
  · exact h.elim

private theorem isPath_of_spells {found : Path}
    (h : anyPath.Spells Formed before tokens found) : IsPath tokens found := by
  obtain ⟨⟨⟨root, location⟩, properties⟩, ⟨front, back, rfl, hname, hrest⟩, rfl⟩ := h
  obtain ⟨word, rfl, hword, rfl⟩ := name_of_spells hname
  refine foldl_of_run (fun hinner _ hnext ↦ ?_) (.name hword) (endsLineFrom_iff nofun) hrest
  obtain ⟨⟨period, property⟩, ⟨_, _, rfl, ⟨hperiod, rfl⟩, hproperty⟩, rfl⟩ := hnext
  obtain ⟨word, rfl, hword, -⟩ := name_of_spells hproperty
  exact ⟨nofun, hinner.property hperiod hword⟩

/-! ### Expressions -/

private theorem isExpression_of_formed {found : Expression} (h : Formed .expression tokens found) :
    IsExpression .expression tokens found := h.derives

private theorem isBody_of_spells {found : Block} (h : body.Spells Formed False tokens found) :
    IsBody tokens found := by
  obtain ⟨⟨colon, statements⟩, ⟨_, tokens, rfl, hhead, hblock⟩, rfl⟩ := h
  obtain ⟨⟨_, lineEnd⟩, ⟨_, _, rfl, ⟨hcolon, rfl⟩, hlineEnd, rfl⟩, rfl⟩ := hhead
  exact .mk hcolon hlineEnd (Formed.derives hblock)

private theorem isElseIf_of_spells {found : ElseIf} (h : elseIf.Spells Formed before tokens found) :
    IsElseIf tokens found := by
  obtain ⟨⟨⟨word, condition⟩, body⟩, ⟨_, last, rfl, h, hbody⟩, rfl⟩ := h
  obtain ⟨_, test, rfl, h, htest⟩ := h
  obtain ⟨⟨_, second⟩, ⟨_, _, rfl, ⟨hword, rfl⟩, hsecond, rfl⟩, rfl⟩ := h
  have helse := IsElseIf.mk hword hsecond (isExpression_of_formed htest) (isBody_of_spells hbody)
  simpa using helse

private theorem isConditional_of_spells {found : Expression}
    (h : conditional.Spells Formed before tokens found) :
    IsExpression .conditional tokens found := by
  obtain ⟨⟨⟨⟨⟨word, condition⟩, body⟩, alternatives⟩, otherwise⟩, ⟨_, last, rfl, h, hlast⟩,
    rfl⟩ := h
  obtain ⟨_, further, rfl, h, hfurther⟩ := h
  obtain ⟨_, first, rfl, h, hfirst⟩ := h
  obtain ⟨_, test, rfl, ⟨hword, rfl⟩, htest⟩ := h
  have hlast : IsElse last otherwise := by
    obtain ⟨rfl, rfl⟩ | ⟨body, rfl, h⟩ := hlast
    · exact .none
    · obtain ⟨⟨word, body⟩, ⟨_, _, rfl, ⟨hword, rfl⟩, hbody⟩, rfl⟩ := h
      exact .some hword (isBody_of_spells hbody)
  have hbranches := IsExpression.branches hword (isExpression_of_formed htest)
    (isBody_of_spells hfirst) (many_of_run (fun _ _ _ h ↦ isElseIf_of_spells h) hfurther) hlast
  simpa using hbranches

private theorem isApplication_of_spells {found : Expression}
    (h : application.Spells Formed before tokens found) :
    IsExpression .application tokens found := by
  obtain ⟨⟨receiver, messages⟩, ⟨front, back, rfl, hfirst, hrest⟩, rfl⟩ := h
  have hfirst : Formed .xor front receiver := hfirst
  refine foldl_of_run (fun hreceiver hbefore hnext ↦ ?_) (.receiver hfirst.derives)
    (endsLineFrom_iff hfirst.ne_nil) hrest
  obtain ⟨hline, hmessage⟩ := hnext
  have hmessage : Formed .xor _ _ := hmessage
  exact ⟨hmessage.ne_nil, .send hreceiver (fun h ↦ hline (hbefore.2 h)) hmessage.derives⟩

private theorem operand_of_spells {level : Level} {found : Expression}
    (h : (operandOf level).Spells Formed before tokens found) :
    IsExpression (operandPlace level) tokens found ∧ tokens ≠ [] := by
  cases level <;> exact ⟨Formed.derives h, Formed.ne_nil h⟩

private theorem operator_of_spells {level : Level} {found : BinaryOperator}
    (h : (operatorOf level).Spells Formed before tokens found) :
    ¬ before ∧ ∃ sign, tokens = [sign] ∧ sign.kind = found.token ∧ found.level = level := by
  obtain ⟨hline, h⟩ := h
  refine ⟨hline, ?_⟩
  simp only [← BinaryOperator.mem_operators_iff]
  revert h
  generalize level.operators = operators
  intro h
  induction operators with
  | nil => exact h.elim
  | cons operator operators ih =>
    obtain h | h := h
    · obtain ⟨sign, ⟨hsign, rfl⟩, rfl⟩ := h
      exact ⟨sign, rfl, hsign, .head _⟩
    · obtain ⟨sign, rfl, hsign, hmem⟩ := ih h
      exact ⟨sign, rfl, hsign, .tail _ hmem⟩

private theorem isLevel_of_spells {level : Level} {found : Expression}
    (h : (ladder level).Spells Formed before tokens found) :
    IsExpression (.level level) tokens found := by
  unfold ladder operands at h
  dsimp only at h
  split at h
  · next hchains =>
    obtain ⟨⟨first, rest⟩, ⟨front, back, rfl, hfirst, hrest⟩, rfl⟩ := h
    obtain ⟨hfirst, hne⟩ := operand_of_spells hfirst
    refine foldl_of_run (fun hleft hbefore hnext ↦ ?_) (.operand hfirst) (endsLineFrom_iff hne)
      hrest
    obtain ⟨_, second, rfl, hoperator, hright⟩ := hnext
    obtain ⟨hline, sign, rfl, hsign, hlevel⟩ := operator_of_spells hoperator
    obtain ⟨hright, -⟩ := operand_of_spells hright
    exact ⟨nofun, .chained hchains hlevel hleft (fun h ↦ hline (hbefore.2 h)) hsign hright⟩
  · next hchains =>
    obtain ⟨⟨first, rest⟩, ⟨front, back, rfl, hfirst, hrest⟩, rfl⟩ := h
    obtain ⟨hfirst, hne⟩ := operand_of_spells hfirst
    obtain ⟨rfl, rfl⟩ | ⟨⟨operator, right⟩, rfl, h⟩ := hrest
    · rw [List.append_nil]
      exact .operand hfirst
    · obtain ⟨_, second, rfl, hoperator, hright⟩ := h
      obtain ⟨hline, sign, rfl, hsign, hlevel⟩ := operator_of_spells hoperator
      obtain ⟨hright, -⟩ := operand_of_spells hright
      rw [endsLineFrom_iff hne] at hline
      exact .single (by simpa using hchains) hlevel hfirst hline hsign hright

private theorem isUnary_of_spells {found : Expression}
    (h : unary.Spells Formed before tokens found) : IsExpression .unary tokens found := by
  obtain h | h | h | h := h
  · obtain ⟨⟨sign, operand⟩, ⟨_, _, rfl, ⟨hsign, rfl⟩, hoperand⟩, rfl⟩ := h
    exact .signed (hsign : sign.kind = UnaryOperator.negate.token) (Formed.derives hoperand)
  · obtain ⟨⟨sign, operand⟩, ⟨_, _, rfl, ⟨hsign, rfl⟩, hoperand⟩, rfl⟩ := h
    exact .signed (hsign : sign.kind = UnaryOperator.not.token) (Formed.derives hoperand)
  · exact .unsigned (Formed.derives h)
  · exact h.elim

private theorem isProperty_of_spells {found : Expression}
    (h : propertyChain.Spells Formed before tokens found) :
    IsExpression .property tokens found := by
  obtain ⟨⟨root, names⟩, ⟨front, back, rfl, hroot, hrest⟩, rfl⟩ := h
  have hroot : Formed .atom front root := hroot
  refine foldl_of_run (fun hleft hbefore hnext ↦ ?_) (.atom hroot.derives)
    (endsLineFrom_iff hroot.ne_nil) hrest
  obtain ⟨⟨period, property⟩, ⟨_, _, rfl, ⟨hline, hperiod, rfl⟩, hproperty⟩, rfl⟩ := hnext
  obtain ⟨word, rfl, hword, -⟩ := name_of_spells hproperty
  exact ⟨nofun, hleft.property (fun h ↦ hline (hbefore.2 h)) hperiod hword⟩

private theorem isLiteral_of_spells {found : Expression}
    (h : literal.Spells Formed before tokens found) : IsExpression .atom tokens found := by
  obtain h | h | h | h | h | h | h := h
  · obtain ⟨⟨value, location⟩, hname, rfl⟩ := h
    obtain ⟨word, rfl, hword, rfl⟩ := name_of_spells hname
    exact .name hword
  · obtain ⟨⟨value, location⟩, ⟨token, rfl, hkind, hread, rfl⟩, rfl⟩ := h
    refine .string hkind ?_
    cases hpayload : token.payload <;> rw [hpayload] at hread <;> cases hread
    rfl
  · obtain ⟨⟨value, location⟩, ⟨token, rfl, hkind, hread, rfl⟩, rfl⟩ := h
    refine .integer hkind ?_
    cases hpayload : token.payload <;> rw [hpayload] at hread <;> cases hread
    rfl
  · obtain ⟨⟨value, location⟩, ⟨token, rfl, hkind, hread, rfl⟩, rfl⟩ := h
    refine .float hkind ?_
    cases hpayload : token.payload <;> rw [hpayload] at hread <;> cases hread
    rfl
  · obtain ⟨⟨value, location⟩, ⟨token, rfl, hkind, hread, rfl⟩, rfl⟩ := h
    refine .boolean hkind ?_
    cases hpayload : token.payload <;> rw [hpayload] at hread <;> cases hread
    rfl
  · obtain ⟨⟨value, location⟩, ⟨token, rfl, hkind, hread, rfl⟩, rfl⟩ := h
    refine .character hkind ?_
    cases hpayload : token.payload <;> rw [hpayload] at hread <;> cases hread
    rfl
  · exact h.elim

private theorem isArgument_of_spells {found : Argument}
    (h : argument.Spells Formed before tokens found) : IsArgument tokens found := by
  obtain ⟨⟨⟨key, location⟩, value⟩, ⟨_, tokens, rfl, h, hvalue⟩, rfl⟩ := h
  obtain ⟨⟨_, colon⟩, ⟨_, _, rfl, hname, hcolon, rfl⟩, heq⟩ := h
  cases heq
  obtain ⟨word, rfl, hword, rfl⟩ := name_of_spells hname
  exact .mk hword hcolon (isExpression_of_formed hvalue)

private theorem isAtom_of_spells {found : Expression}
    (h : atom.Spells Formed before tokens found) : IsExpression .atom tokens found := by
  obtain h | h | h | h | h | h | h | h := h
  · obtain ⟨⟨word, body⟩, ⟨_, tokens, rfl, ⟨hword, rfl⟩, hbody⟩, rfl⟩ := h
    obtain ⟨location, statements⟩ := body
    exact .block hword (isBody_of_spells hbody)
  · obtain ⟨⟨word, type⟩, ⟨_, tokens, rfl, ⟨hword, rfl⟩, htype⟩, rfl⟩ := h
    exact .create hword (isType_of_formed htype)
  · obtain ⟨_, ⟨⟨⟨⟨opening, header, _⟩, arguments⟩, closing⟩, ⟨_, _, rfl, h, hclosing, rfl⟩, rfl⟩,
      rfl⟩ := h
    obtain ⟨_, tokens, rfl, ⟨_, _, rfl, ⟨hopening, rfl⟩, hname⟩, harguments⟩ := h
    obtain ⟨word, rfl, hword, -⟩ := name_of_spells hname
    have hlisted := listed_of_spells harguments fun h ↦ isArgument_of_spells h
    exact .message hopening hword hlisted hclosing
  · obtain ⟨_, ⟨⟨⟨⟨opening, first⟩, rest⟩, closing⟩, ⟨_, _, rfl, h, hclosing, rfl⟩, rfl⟩, rfl⟩ := h
    obtain ⟨_, _, rfl, ⟨_, head, rfl, ⟨hopening, rfl⟩, hfirst⟩, hrest⟩ := h
    obtain ⟨⟨comma, _⟩, ⟨_, tail, rfl, ⟨hcomma, rfl⟩, hrest⟩, rfl⟩ := hrest
    have htuple := IsExpression.tuple hopening (isExpression_of_formed hfirst) hcomma
      (listed_of_spells hrest fun h ↦ isExpression_of_formed h) hclosing
    simpa using htuple
  · obtain ⟨_, ⟨⟨⟨opening, elements⟩, closing⟩, ⟨_, _, rfl, h, hclosing, rfl⟩, rfl⟩, rfl⟩ := h
    obtain ⟨_, tokens, rfl, ⟨hopening, rfl⟩, helements⟩ := h
    exact .list hopening (listed_of_spells helements fun h ↦ isExpression_of_formed h) hclosing
  · exact isLiteral_of_spells h
  · obtain ⟨⟨_, closing⟩, ⟨_, _, rfl, h, hclosing, rfl⟩, rfl⟩ := h
    obtain ⟨⟨opening, value⟩, ⟨_, tokens, rfl, ⟨hopening, rfl⟩, hvalue⟩, rfl⟩ := h
    exact .grouped hopening (isExpression_of_formed hvalue) hclosing
  · exact h.elim

/-! ### Statements -/

private theorem isEnd_of_spells {statement : List Token} (hne : statement ≠ [])
    (h : Parser.endOfStatement.Spells Formed (EndsLineFrom before statement) tokens ()) :
    IsEnd statement tokens := by
  obtain ⟨token, rfl, hkind⟩ | ⟨rfl, hends⟩ := h
  · exact .lineEnd hkind
  · exact .behind ((endsLineFrom_iff hne).1 hends)

private theorem isStatement_of_spells {found : Statement}
    (h : anyStatement.Spells Formed before tokens found) : IsStatement tokens found := by
  obtain h | h | h | h | h | h := h
  · obtain ⟨_, ⟨⟨⟨⟨word, pattern⟩, value⟩, ending⟩, ⟨_, _, rfl, h, hending⟩, rfl⟩, rfl⟩ := h
    obtain ⟨_, tokens, rfl, h, hvalue⟩ := h
    obtain ⟨⟨_, assign⟩, ⟨_, _, rfl, ⟨_, target, rfl, ⟨hword, rfl⟩, htarget⟩, hassign, rfl⟩,
      heq⟩ := h
    cases heq
    have hend := isEnd_of_spells (by simp) hending
    have hbind := IsStatement.bind hword (isPattern_of_formed htarget) hassign
      (isExpression_of_formed hvalue) (by simpa using hend)
    simpa using hbind
  · obtain ⟨_, ⟨⟨⟨path, value⟩, ending⟩, ⟨_, _, rfl, h, hending⟩, rfl⟩, rfl⟩ := h
    obtain ⟨_, tokens, rfl, ⟨⟨_, assign⟩, ⟨target, _, rfl, htarget, hassign, rfl⟩, rfl⟩,
      hvalue⟩ := h
    have hend := isEnd_of_spells (by simp) hending
    have hassigned := IsStatement.assign (Formed.derives htarget) hassign
      (isExpression_of_formed hvalue) (by simpa using hend)
    simpa using hassigned
  · obtain ⟨⟨⟨⟨word, pattern⟩, iterable⟩, body⟩, ⟨_, last, rfl, h, hbody⟩, rfl⟩ := h
    obtain ⟨_, tokens, rfl, h, hiterable⟩ := h
    obtain ⟨⟨_, second⟩, ⟨_, _, rfl, ⟨_, target, rfl, ⟨hword, rfl⟩, htarget⟩, hsecond, rfl⟩,
      heq⟩ := h
    cases heq
    have hfor := IsStatement.forEach hword (isPattern_of_formed htarget) hsecond
      (isExpression_of_formed hiterable) (isBody_of_spells hbody)
    simpa using hfor
  · obtain ⟨⟨⟨word, condition⟩, body⟩, ⟨_, last, rfl, h, hbody⟩, rfl⟩ := h
    obtain ⟨_, tokens, rfl, ⟨hword, rfl⟩, hcondition⟩ := h
    exact .loop hword (isExpression_of_formed hcondition) (isBody_of_spells hbody)
  · obtain ⟨_, ⟨⟨value, _⟩, ⟨tokens, ending, rfl, hvalue, hending⟩, rfl⟩, rfl⟩ := h
    exact .expression (isExpression_of_formed hvalue)
      (isEnd_of_spells (Formed.ne_nil hvalue) hending)
  · exact h.elim

/-! ### Declarations -/

private theorem isParameter_of_spells {found : Parameter}
    (h : parameter.Spells Formed before tokens found) : IsParameter tokens found := by
  obtain ⟨⟨⟨value, location⟩, type⟩, ⟨_, back, rfl, hname, htype⟩, rfl⟩ := h
  obtain ⟨word, rfl, hword, rfl⟩ := name_of_spells hname
  obtain ⟨rfl, rfl⟩ | ⟨type, rfl, h⟩ := htype
  · exact .plain hword
  · obtain ⟨⟨colons, type⟩, ⟨_, tokens, rfl, ⟨hcolons, rfl⟩, htype⟩, rfl⟩ := h
    exact .typed hword hcolons (isType_of_formed htype)

private theorem isMember_of_spells {found : Member}
    (h : member.Spells Formed before tokens found) : IsMember tokens found := by
  obtain ⟨_, ⟨⟨⟨⟨value, location⟩, type⟩, lineEnd⟩, ⟨_, _, rfl, h, hlineEnd, rfl⟩, rfl⟩, rfl⟩ := h
  obtain ⟨_, tokens, rfl, ⟨⟨_, colons⟩, ⟨_, _, rfl, hname, hcolons, rfl⟩, heq⟩, htype⟩ := h
  cases heq
  obtain ⟨word, rfl, hword, rfl⟩ := name_of_spells hname
  exact .mk hword hcolons (isType_of_formed htype) hlineEnd

private theorem isHandler_of_spells {found : Handler}
    (h : handler.Spells Formed before tokens found) : IsHandler tokens found := by
  obtain ⟨⟨⟨⟨value, location⟩, parameters⟩, body⟩, ⟨_, last, rfl, h, hbody⟩, rfl⟩ := h
  obtain ⟨⟨_, closing⟩, ⟨_, _, rfl, h, hclosing, rfl⟩, heq⟩ := h
  cases heq
  obtain ⟨_, tokens, rfl, ⟨⟨_, opening⟩, ⟨_, _, rfl, hname, hopening, rfl⟩, heq⟩, hparameters⟩ := h
  cases heq
  obtain ⟨word, rfl, hword, rfl⟩ := name_of_spells hname
  have hlisted : Listed IsParameter tokens (parameters.getD []) := by
    obtain ⟨rfl, rfl⟩ | ⟨parameters, rfl, h⟩ := hparameters
    · exact .none
    · exact .some (Formed.derives h)
  have hhandler := IsHandler.mk hword hopening hlisted hclosing (isBody_of_spells hbody)
  simpa using hhandler

private theorem isItem_of_spells {found : StructItem}
    (h : structItem.Spells Formed before tokens found) : IsItem tokens found := by
  obtain h | h | h := h
  · obtain ⟨declared, h, rfl⟩ := h
    exact .member (Formed.derives h)
  · obtain ⟨declared, h, rfl⟩ := h
    exact .handler (Formed.derives h)
  · exact h.elim

private theorem merges_items (items : List StructItem) :
    Merges items (membersOf items) (handlersOf items) := by
  induction items with
  | nil => exact .nil
  | cons item items ih =>
    cases item with
    | member declared => exact .member ih
    | handler declared => exact .handler ih

private theorem isStruct_of_spells {found : Struct}
    (h : struct.Spells Formed before tokens found) : IsStruct tokens found := by
  obtain ⟨⟨⟨word, value, _⟩, items⟩, ⟨_, tokens, rfl, h, hne, hitems⟩, rfl⟩ := h
  obtain ⟨⟨_, _⟩, ⟨_, ends, rfl, h, hneEnds, hends⟩, heq⟩ := h
  cases heq
  obtain ⟨⟨_, colon⟩, ⟨_, _, rfl, ⟨_, _, rfl, ⟨hword, rfl⟩, hname⟩, hcolon, rfl⟩, heq⟩ := h
  cases heq
  obtain ⟨title, rfl, htitle, -⟩ := name_of_spells hname
  have hblock : BlockOf IsItem tokens items := blockOf_of_spells hitems hne fun h ↦ Formed.derives h
  have hstruct := IsStruct.mk hword htitle hcolon (ne_nil_of_run hends hneEnds)
    (lineEnds_of_run hends) hblock (merges_items items)
  simpa using hstruct

/-- What a production spells is derived from its rule, if this holds of the rules inside. A program
is told by its end of the input, which no other rule reads. -/
theorem derives_of_spells {rule : Rule} (hrule : rule ≠ .program) {found : rule.Result}
    (h : (production rule).Spells Formed before tokens found) : Derives rule tokens found := by
  cases rule with
  | program => exact absurd rfl hrule
  | structDeclaration => exact isStruct_of_spells h
  | structItem => exact isItem_of_spells h
  | memberDeclaration => exact isMember_of_spells h
  | handlerDeclaration => exact isHandler_of_spells h
  | parameters => exact commas_of_spells h fun h ↦ isParameter_of_spells h
  | statement => exact isStatement_of_spells h
  | statementBlock => exact blockOf_of_spells h.2 h.1 fun h ↦ Formed.derives h
  | path => exact isPath_of_spells h
  | expression =>
    obtain h | h | h := h
    · exact .conditional (Formed.derives h)
    · exact .application (Formed.derives h)
    · exact h.elim
  | ifExpression => exact isConditional_of_spells h
  | application => exact isApplication_of_spells h
  | xor | or | and | equality | relation | additive | multiplicative => exact isLevel_of_spells h
  | unary => exact isUnary_of_spells h
  | property => exact isProperty_of_spells h
  | atom => exact isAtom_of_spells h
  | pattern => exact isPattern_of_spells h
  | typeExpression => exact isType_of_spells h

/-! ### Runs -/

attribute [local simp] Parser.StaysInside Parser.choice Parser.skip Parser.skipLeft
  Parser.commaSeparated sure

private theorem staysInside_ladder (level : Level) : (ladder level).StaysInside sure := by
  unfold ladder operands operatorOf
  cases level <;> simp [Level.chains, Level.operators, BinaryOperator.token, operandOf, levelRule]

/-- No production but that of a program reads an end of the input. -/
theorem staysInside {rule : Rule} (hrule : rule ≠ .program) :
    (production rule).StaysInside sure := by
  cases rule with
  | program => exact absurd rfl hrule
  | xor | or | and | equality | relation | additive | multiplicative => exact staysInside_ladder _
  | pattern =>
    intro kind
    cases kind <;> simp [name, listPattern, tuplePattern, variadicPattern, pattern]
  | structDeclaration =>
    exact ⟨⟨⟨⟨by rintro ⟨⟩, by rintro ⟨⟩⟩, by rintro ⟨⟩⟩, by rintro ⟨⟩⟩,
      show Rule.structItem ≠ .program by
      decide⟩
  | structItem | memberDeclaration | handlerDeclaration | parameters =>
    simp [production, structItem, member, handler, parameter, name, typeExpr, body, statementBlock]
  | statement | statementBlock | path =>
    simp [production, anyStatement, binding, assignment, forEach, loop, expressionStatement, path,
      expression, pattern, body, statementBlock, statements, statement, anyPath, name]
  | expression => exact ⟨by rintro ⟨⟩, by rintro ⟨⟩, trivial⟩
  | ifExpression | application =>
    simp [production, conditional, application, expression, body, statementBlock, elseIf,
      alignedElse]
  | unary =>
    have hproperty : sure .property := by rintro ⟨⟩
    exact ⟨⟨by rintro ⟨⟩, hproperty⟩, ⟨by rintro ⟨⟩, hproperty⟩, hproperty, trivial⟩
  | property => simp [production, propertyChain, name]
  | atom =>
    simp [production, atom, doBlock, creation, message, tuple, list, literal, nameExpression, name,
      stringLiteral, integerLiteral, floatLiteral, booleanLiteral, characterLiteral, grouped,
      body, statementBlock, typeExpr, argument, expression]
  | typeExpression =>
    simp [production, anyType, namedType, name, listType, tupleType, variadicType, typeArguments,
      typeExpr]

/-- What a success of a rule says about the tokens of its range, whatever tokens stand around it;
programs are left out. -/
structure Builds (input : Input) (indent : Nat) (rule : Rule) (p q : Nat) (found : rule.Result) :
    Prop where
  moves : Moves input indent rule p q found
  formed : sure rule → p ≤ input.tokens.size → Formed rule (input.segment p q) found

/-- What a success of a rule says about the tokens of its range. -/
structure Reads (input : Input) (indent : Nat) (rule : Rule) (p q : Nat) (found : rule.Result) :
    Prop where
  moves : Moves input indent rule p q found
  formed : sure rule → p ≤ input.tokens.size → Formed rule (input.segment p q) found
  derives : p < input.tokens.size → Derives rule (input.segment p q) found

variable {input : Input}

private theorem spells_of_accepts {parser : Parser α} (hinside : parser.StaysInside sure)
    {indent p q : Nat} {found : α} (hp : p ≤ input.tokens.size)
    (h : parser.Accepts input (Builds input) indent p q found) :
    parser.Spells Formed (input.EndsLineBefore p) (input.segment p q) found :=
  h.spells (fun h ↦ h.moves.within) (fun hsure hp h ↦ h.formed hsure hp) hinside hp

/-- The law of building is kept by every production. -/
theorem builds_of_accepts {indent p q : Nat} {rule : Rule} {found : rule.Result}
    (h : (production rule).Accepts input (Builds input) indent p q found) :
    Builds input indent rule p q found := by
  have hmoves := moves_of_accepts (h.imp fun h ↦ h.moves)
  refine ⟨hmoves, fun hsure hp ↦ ?_⟩
  have hspells := spells_of_accepts (staysInside hsure) hp h
  have hlt := hmoves.lt hsure
  have hsize := hmoves.within.2
  exact ⟨derives_of_spells hsure hspells, input.segment_ne_nil hlt (by omega),
    hspells.endFree (fun _ h ↦ h.endFree) (staysInside hsure)⟩

-- A program ends at the last token, since no other token ends the input.
private theorem isProgram_of_accepts {indent p q : Nat} {found : Program}
    (hend : (input.tokenAt (input.tokens.size - 1)).kind = .endOfInput)
    (hp : p < input.tokens.size)
    (h : program.Accepts input (Builds input) indent p q found) :
    IsProgram (input.segment p q) found := by
  obtain ⟨⟨location, structs⟩, ⟨start, ⟨hstart, hlocation⟩, ⟨_, sentinel⟩,
    ⟨m, hitems, hkind, hsentinel, hafter⟩, hstructs⟩, rfl⟩ := h
  subst hstart hsentinel hafter hstructs
  have hm := hitems.within fun h ↦ h.moves.within
  have hinside : (lineEnds.skipLeft (.many ((Parser.rule .structDeclaration : Parser Struct).skip
      lineEnds))).StaysInside sure := ⟨nofun, nofun, nofun⟩
  have hspells := spells_of_accepts hinside (Nat.le_of_lt hp) hitems
  have hfree := hspells.endFree (fun _ h ↦ h.endFree) hinside
  have hlt : m < input.tokens.size := by
    rw [← Nat.not_le]
    intro hge
    exact hfree _ (input.tokenAt_mem_segment (r := input.tokens.size - 1) (by omega) (by omega)
      (by omega)) hend
  have hq := (input.lt_after_iff m).2 hlt
  have hhead := input.head?_segment (Nat.lt_of_le_of_lt hm.1 hq) hp
  rw [← input.segment_append hm.1 (Nat.le_of_lt hq), input.segment_after hlt] at hhead ⊢
  obtain ⟨⟨_, structs⟩, ⟨ends, lines, hsplit, hends, hlines⟩, rfl⟩ := hspells
  rw [hsplit, List.append_assoc] at hhead ⊢
  have hlines : Lines IsStruct lines structs := by
    refine lines_of_run (fun _ _ _ hline ↦ ?_) hlines
    obtain ⟨⟨_, _⟩, ⟨front, ends, rfl, hfront, hends⟩, rfl⟩ := hline
    exact ⟨front, ends, rfl, Formed.derives hfront, lineEnds_of_run hends⟩
  have hprogram := IsProgram.mk (lineEnds_of_run hends) hlines hkind hhead
  rw [← hlocation] at hprogram
  exact hprogram

/-- The law of reading is kept by every production. -/
theorem reads_of_accepts
    (hend : (input.tokenAt (input.tokens.size - 1)).kind = .endOfInput)
    {indent p q : Nat} {rule : Rule} {found : rule.Result}
    (h : (production rule).Accepts input (Reads input) indent p q found) :
    Reads input indent rule p q found := by
  have hbuilds : (production rule).Accepts input (Builds input) indent p q found :=
    h.imp fun h ↦ ⟨h.moves, h.formed⟩
  obtain ⟨hmoves, hformed⟩ := builds_of_accepts hbuilds
  refine ⟨hmoves, hformed, fun hp ↦ ?_⟩
  by_cases hprogram : rule = .program
  · subst hprogram
    exact isProgram_of_accepts hend hp hbuilds
  · exact (hformed hprogram (Nat.le_of_lt hp)).derives

section Sources

variable {file source : String} {tokens : List Token} {memoize : Bool}
  {actions : List Session.Action} {s s' : State} {p q indent : Nat} {rule : Rule}
  {found : rule.Result}

/-- On the tokens of a source text, every rule reads by the law of reading, whatever a session has
read and remembered before. -/
theorem reads_of_parse (htokens : Token.ofSource file source = .ok tokens)
    (hreached : s ∈ Session.reached ⟨tokens.toArray, memoize⟩ actions) (blocks : List Nat)
    (h : parse (.rule rule) ⟨tokens.toArray, memoize⟩ ⟨p, blocks, s.table⟩ = .ok (.ok found, s')) :
    Reads ⟨tokens.toArray, false⟩ (blocks.headD 0) rule p s'.position found := by
  obtain ⟨location, hlast⟩ := Token.getLast?_of_ofSource htokens
  have hend : (Input.tokenAt ⟨tokens.toArray, false⟩ (tokens.toArray.size - 1)).kind =
      .endOfInput := by
    rw [List.getLast?_eq_getElem?] at hlast
    rw [Input.tokenAt, List.size_toArray, List.getElem?_toArray, hlast]
    rfl
  have hsound : Sound tokens.toArray s.table := Session.sound_of_reached hreached
  exact (parse_induction tokens.toArray (reads_of_accepts hend)
    (s := ⟨p, blocks, s.table⟩) hsound h).1

/-- What is read from a position inside the tokens is derived from the tokens of its range. -/
theorem Reads.derives_extract (h : Reads ⟨tokens.toArray, false⟩ indent rule p q found)
    (hp : p < tokens.length) : Derives rule (tokens.extract p q) found := by
  have hderives := h.derives (by simpa using hp)
  simpa [Input.segment, List.extract_eq_take_drop] using hderives

end Sources

/-- A rule that succeeds on the tokens of a source text, at whatever position and inside whatever
blocks, has read a row of tokens that the grammar derives from the rule as the result. Nothing hangs
on what a session has read and remembered before. -/
theorem parse_derives {file source : String} {tokens : List Token}
    (htokens : Token.ofSource file source = .ok tokens) {memoize : Bool}
    {actions : List Session.Action} {s : State}
    (hreached : s ∈ Session.reached ⟨tokens.toArray, memoize⟩ actions)
    (blocks : List Nat) {p : Nat} (hp : p < tokens.length) {rule : Rule} {found : rule.Result}
    {s' : State}
    (h : parse (.rule rule) ⟨tokens.toArray, memoize⟩ ⟨p, blocks, s.table⟩ = .ok (.ok found, s')) :
    p ≤ s'.position ∧ s'.position ≤ tokens.length ∧
      Derives rule (tokens.extract p s'.position) found := by
  have hreads := reads_of_parse htokens hreached blocks h
  have hwithin := hreads.moves.within
  unfold Input.Within at hwithin
  simp only [List.size_toArray] at hwithin
  exact ⟨hwithin.1, by omega, hreads.derives_extract hp⟩

/-- The tokens of a path with one property. -/
def dottedPath : List Token :=
  [⟨⟨.identifier, .text "a"⟩, .concrete "f" 1 1 0⟩, ⟨⟨.period, .none⟩, .concrete "f" 1 2 1⟩,
    ⟨⟨.identifier, .text "b"⟩, .concrete "f" 1 3 2⟩, ⟨⟨.endOfInput, .none⟩, .concrete "f" 1 4 3⟩]

/-- The path that a source text is read as is derived from all of its tokens but the last. -/
theorem parse_derives_dottedPath :
    Derives .path (dottedPath.extract 0 3)
      (Path.property (.concrete "f" 1 1 0) (.name (.concrete "f" 1 1 0) "a") "b") := by
  have htokens : Token.ofSource "f" "a.b" = .ok dottedPath := by
    with_unfolding_all rfl
  have hrun : parse (.rule .path) ⟨dottedPath.toArray, false⟩ ⟨0, [], State.start.table⟩ =
      .ok (.ok (Path.property (.concrete "f" 1 1 0) (.name (.concrete "f" 1 1 0) "a") "b"),
        ⟨3, [], .empty⟩) := by cbv
  have hreached : State.start ∈ Session.reached ⟨dottedPath.toArray, false⟩ [] := .head _
  exact (parse_derives htokens hreached [] (by decide) hrun).2.2

end Offside.Grammar
