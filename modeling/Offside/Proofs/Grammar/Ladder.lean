import Offside.Proofs.Grammar.RowReading
import Offside.Proofs.RoundTrip.Expressions
import Offside.Proofs.Tree.Bracketing

/-!
# Operators as their precedences bracket them

The tokens of a row are its names and operators and an end of input. On each level as much of a row
is read as its operators allow (`Climbs`), from the tightest level to the loosest. So an expression
is the longest front of the row that can be bracketed, in its one bracketing
(`parse_expression_bracketed`).
-/

namespace Offside

open Packrat

/-- The token of a name. -/
def Operand.token (operand : Operand) : Token :=
  ⟨⟨.identifier, .text operand.name⟩, operand.location⟩

/-- The token of an operator. -/
def Link.sign (link : Link) : Token := ⟨⟨link.operator.token, .none⟩, link.location⟩

/-- The tokens of what follows a name in a row that an end of input closes. -/
def linkTokens (ending : Location) : List Link → List Token
  | [] => [⟨⟨.endOfInput, .none⟩, ending⟩]
  | link :: rest => link.sign :: link.operand.token :: linkTokens ending rest

/-- The tokens of a row that an end of input closes. -/
def rowTokens (ending : Location) (first : Operand) (links : List Link) : List Token :=
  first.token :: linkTokens ending links

private theorem length_linkTokens (ending : Location) (links : List Link) :
    (linkTokens ending links).length = 2 * links.length + 1 := by
  induction links with
  | nil => rfl
  | cons link rest ih =>
    simp only [linkTokens, List.length_cons, ih]
    omega

namespace Grammar

variable {tokens : Array Token} {indent : Nat} {ending : Location} {level : Level}

-- What is before a name of a row.
private def beforeOperand (ending : Location) (first : Operand) (links : List Link) : View :=
  ⟨false, rowTokens ending first links⟩

-- What is behind a name of a row.
private def behindOperand (ending : Location) (links : List Link) : View :=
  ⟨false, linkTokens ending links⟩

private theorem behind_sign (link : Link) (rest : List Link) :
    View.behind link.sign (rowTokens ending link.operand rest) =
      beforeOperand ending link.operand rest := by
  refine View.behind_of_ne ?_ _
  change link.operator.token ≠ .endOfLine
  cases link.operator <;> decide

/-- The tree brackets what a level takes of a row, and nothing of the level goes on with it. -/
structure Climbed (rank : Nat) (first : Operand) (taken left : List Link) (tree : Expression) :
    Prop where
  brackets : Brackets first taken tree
  rank_le : rank ≤ tree.rank
  stuck : Stuck rank tree left

variable (tokens indent ending) in
-- As much of a row is read as operators of the rank allow.
private def Climbs (parser : Parser Expression) (rank : Nat) : Prop :=
  ∀ first links, ∃ taken left tree, links = taken ++ left ∧ Climbed rank first taken left tree ∧
    (reader tokens parser).Yields tokens indent (beforeOperand ending first links)
      (behindOperand ending left) (· = tree)

/-! ### Names -/

private theorem not_continuesAt_behindOperand (links : List Link) :
    (behindOperand ending links).ahead.continuesAt 9 = false := by
  cases links with
  | nil => rfl
  | cons link rest =>
    change link.operator.token.continuesAt 9 = false
    rw [link.operator.continuesAt_token]
    exact decide_eq_false (Nat.not_le_of_lt (Nat.lt_succ_of_le link.operator.precedence_le))

private theorem climbs_unary : Climbs tokens indent ending (.rule .unary) 9 := by
  intro first links
  refine ⟨[], links, _, rfl, ⟨.operand first, show 9 ≤ 11 by decide, ?_⟩, ?_⟩
  · cases links with
    | nil => exact .done
    | cons link rest => exact .looser (Nat.lt_succ_of_le link.operator.precedence_le)
  · have hfirst : IsName first.token first.name := ⟨rfl, rfl⟩
    have hword : (reader tokens name).Yields tokens indent (beforeOperand ending first links)
        (behindOperand ending links) (· = (first.name, first.location)) :=
      yields_word hfirst false _
    have hname : (reader tokens nameExpression).Yields tokens indent
        (beforeOperand ending first links) (behindOperand ending links)
        (· = .name first.location first.name) :=
      hword.map fun _ hfound ↦ by rw [hfound]
    have hatom : (reader tokens (place 11)).Yields tokens indent (beforeOperand ending first links)
        (behindOperand ending links) (· = .name first.location first.name) :=
      yields_rule (yields_choice_of_refuses rfl [doBlock, creation, message, tuple, list]
        ⟨by rintro ⟨⟩, by rintro ⟨⟩, by rintro ⟨⟩, by rintro ⟨⟩, by rintro ⟨⟩, trivial⟩
        (yields_choice_of_refuses rfl [] trivial hname))
    exact yields_looser (show 9 ≤ 11 by decide) (Nat.le_refl _) hatom rfl
      (View.follows_of_line rfl (not_continuesAt_behindOperand links) indent)

/-! ### One level -/

private theorem declines_behindOperand {left : List Link}
    (h : ∀ link rest, left = link :: rest → link.operator.level ≠ level) :
    (reader tokens (continuation level)).Declines tokens indent (behindOperand ending left) := by
  refine (declines_operatorOf_of_ne (fun _ operator hmem hahead ↦ ?_) indent).seq _
  cases left with
  | nil => cases operator <;> cases hahead
  | cons link rest =>
    refine h link rest rfl ?_
    rw [BinaryOperator.token_injective hahead]
    exact (operator.mem_operators_iff level).1 hmem

private theorem yields_continuation {link : Link} {rest left : List Link} {right : Expression}
    (hright : (reader tokens (operandOf link.operator.level)).Yields tokens indent
      (beforeOperand ending link.operand rest) (behindOperand ending left) (· = right)) :
    (reader tokens (continuation link.operator.level)).Yields tokens indent
      (behindOperand ending (link :: rest)) (behindOperand ending left)
      fun item ↦ item.1 = link.operator ∧ item.2 = right := by
  rw [← behind_sign] at hright
  have hview : (behindOperand ending (link :: rest)).tokens =
    link.sign :: rowTokens ending link.operand rest := rfl
  exact (yields_operatorOf hview rfl rfl indent).seq hright.commit

private theorem Climbed.join {first : Operand} {link : Link} {taken more left : List Link}
    {tree right : Expression} (hbrackets : Brackets first taken tree)
    (hrank : link.precedence < tree.rank ∨
      link.operator.level.chains = true ∧ tree.rank = link.precedence)
    (hright : Climbed (link.precedence + 1) link.operand more left right) :
    Brackets first (taken ++ link :: more) (applied tree link.operator right) ∧
      Stuck (link.precedence + 1) (applied tree link.operator right) left := by
  refine ⟨.node _ hbrackets hright.brackets hrank hright.rank_le, ?_⟩
  obtain ⟨-, -, hstuck⟩ := hright
  cases hstuck with
  | done => exact .done
  | looser hlooser => exact .looser hlooser
  | blocked hchains hends => exact .blocked hchains (.inr hends)

-- On a level that does not chain, one operator is read at most.
private theorem climbs_single (hchains : level.chains = false)
    (h : Climbs tokens indent ending (operandOf level) (level.precedence + 1)) :
    Climbs tokens indent ending (levelRule level) level.precedence := by
  intro first links
  obtain ⟨taken, left, tree, rfl, ⟨hbrackets, hrank, hstuck⟩, hyields⟩ := h first links
  by_cases hnext : ∃ link rest, left = link :: rest ∧ link.operator.level = level
  · obtain ⟨link, rest, rfl, rfl⟩ := hnext
    obtain ⟨more, left, right, rfl, hright, hoperand⟩ := h link.operand rest
    obtain ⟨hjoined, hstuck⟩ := Climbed.join hbrackets (.inl hrank) hright
    refine ⟨taken ++ link :: more, left, applied tree link.operator right, by simp,
      ⟨hjoined, Nat.le_refl _, hstuck.loosen fun _ _ _ _ ↦ ⟨hchains, .inl rfl⟩⟩, ?_⟩
    refine yields_level_of_pair _ hchains hyields (yields_continuation hoperand) ?_
    rintro _ ⟨sign, _⟩ rfl ⟨rfl, rfl⟩
    rfl
  · have hother : ∀ link rest, left = link :: rest → link.operator.level ≠ level :=
      fun link rest hleft hlevel ↦ hnext ⟨link, rest, hleft, hlevel⟩
    exact ⟨taken, left, tree, rfl, ⟨hbrackets, Nat.le_of_succ_le hrank,
        hstuck.loosen fun link rest hleft hlevel ↦ absurd hlevel (hother link rest hleft)⟩,
      yields_level_of_operand level hchains hyields (declines_behindOperand hother)⟩

-- On a level that chains, operators are read for as long as they are of the level.
private theorem climbs_from (hchains : level.chains = true)
    (h : Climbs tokens indent ending (operandOf level) (level.precedence + 1)) {first : Operand}
    {view : View} {taken left : List Link} {tree : Expression}
    (hbrackets : Brackets first taken tree) (hrank : level.precedence ≤ tree.rank)
    (hstuck : Stuck (level.precedence + 1) tree left)
    (hreaches : ReachesLevel tokens level indent view (behindOperand ending left) (· = tree)) :
    ∃ more rest whole, left = more ++ rest ∧
      Climbed level.precedence first (taken ++ more) rest whole ∧
      (reader tokens (levelRule level)).Yields tokens indent view (behindOperand ending rest)
        (· = whole) := by
  induction hlength : left.length using Nat.strongRecOn generalizing taken left tree with
  | ind length ih =>
    subst hlength
    by_cases hnext : ∃ link rest, left = link :: rest ∧ link.operator.level = level
    · obtain ⟨link, rest, rfl, rfl⟩ := hnext
      obtain ⟨more, left, right, rfl, hright, hoperand⟩ := h link.operand rest
      have hrank' : link.precedence < tree.rank ∨
          link.operator.level.chains = true ∧ tree.rank = link.precedence :=
        (Nat.lt_or_eq_of_le hrank).imp_right fun heq ↦ ⟨hchains, heq.symm⟩
      obtain ⟨hjoined, hstuck⟩ := Climbed.join hbrackets hrank' hright
      have hlt : (behindOperand ending left).tokens.length <
          (behindOperand ending (link :: (more ++ left))).tokens.length := by
        simp only [behindOperand, length_linkTokens, List.length_cons, List.length_append]
        omega
      have hreaches : ReachesLevel tokens link.operator.level indent view
          (behindOperand ending left) (· = applied tree link.operator right) := by
        refine Step.Reaches.then hreaches (yields_continuation hoperand) hlt ?_
        rintro _ ⟨sign, _⟩ rfl ⟨rfl, rfl⟩
        rfl
      obtain ⟨further, rest, whole, rfl, hclimbed, hyields⟩ := ih left.length
        (by simp only [List.length_cons, List.length_append]; omega) hjoined (Nat.le_refl _) hstuck
        hreaches rfl
      refine ⟨link :: (more ++ further), rest, whole, by simp, ?_, hyields⟩
      rwa [List.append_assoc, List.cons_append] at hclimbed
    · have hother : ∀ link rest, left = link :: rest → link.operator.level ≠ level :=
        fun link rest hleft hlevel ↦ hnext ⟨link, rest, hleft, hlevel⟩
      refine ⟨[], left, tree, rfl, ⟨by rwa [List.append_nil], hrank,
        hstuck.loosen fun link rest hleft hlevel ↦ absurd hlevel (hother link rest hleft)⟩, ?_⟩
      exact Step.Reaches.yields hreaches (declines_behindOperand hother)

-- A level goes as far as its operators allow, if its operands do.
private theorem climbs_level (level : Level)
    (h : Climbs tokens indent ending (operandOf level) (level.precedence + 1)) :
    Climbs tokens indent ending (levelRule level) level.precedence := by
  cases hchains : level.chains with
  | false => exact climbs_single hchains h
  | true =>
    intro first links
    obtain ⟨taken, left, tree, rfl, ⟨hbrackets, hrank, hstuck⟩, hyields⟩ := h first links
    obtain ⟨more, rest, whole, rfl, hclimbed, hwhole⟩ := climbs_from hchains h hbrackets
      (Nat.le_of_succ_le hrank) hstuck (reachesLevel_of_operand hchains hyields)
    exact ⟨taken ++ more, rest, whole, (List.append_assoc ..).symm, hclimbed, hwhole⟩

variable (tokens indent ending) in
-- The loosest level takes a row as far as all levels allow.
private theorem climbs_xor :
    Climbs tokens indent ending (.rule .xor) Level.xor.precedence :=
  climbs_level .xor <| climbs_level .or <| climbs_level .and <| climbs_level .equality <|
    climbs_level .relation <| climbs_level .additive <| climbs_level .multiplicative climbs_unary

/-! ### Whole expressions -/

-- A minus sign begins an operand too, but it chains.
private theorem not_begins_token {operator : BinaryOperator}
    (h : operator.level.chains = false) : begins .xor operator.token = false := by
  cases operator <;> first | rfl | cases h

private theorem declines_message {tree : Expression} {left : List Link}
    (h : Stuck Level.xor.precedence tree left) :
    (reader tokens furtherMessage).Declines tokens indent (behindOperand ending left) := by
  refine Step.declines_sameLine fun _ ↦ declines_rule ?_
  cases h with
  | done => rfl
  | @looser link _ hlooser => exact absurd hlooser (Nat.not_lt_of_le link.operator.le_precedence)
  | blocked hchains => exact not_begins_token hchains

variable (tokens indent ending) in
private theorem climbs_expression (first : Operand) (links : List Link) :
    ∃ taken left tree, links = taken ++ left ∧
      Climbed Level.xor.precedence first taken left tree ∧
      (reader tokens (.rule .expression)).Yields tokens indent (beforeOperand ending first links)
        (behindOperand ending left) (· = tree) := by
  obtain ⟨taken, left, tree, rfl, hclimbed, hyields⟩ :=
    climbs_xor tokens indent ending first links
  have hreaches : ReachesAt tokens 1 indent (beforeOperand ending first (taken ++ left))
      (behindOperand ending left) (· = tree) := reachesAt_of_tighter rfl hyields
  have happlication : (reader tokens (.rule .application)).Yields tokens indent
      (beforeOperand ending first (taken ++ left)) (behindOperand ending left) (· = tree) :=
    Step.Reaches.yields hreaches (declines_message hclimbed.stuck)
  have hconditional : (reader tokens (.rule .ifExpression)).Declines tokens indent
      (beforeOperand ending first (taken ++ left)) := declines_rule rfl
  exact ⟨taken, left, tree, rfl, hclimbed,
    yields_rule (hconditional.orElse_yields (happlication.orElse _))⟩

/-- Of a row that an end of input closes, an expression is the longest front that a tree brackets,
and there is one such tree up to the locations of its inner nodes. -/
theorem parse_expression_bracketed (memoize : Bool) (blocks : List Nat) (ending : Location)
    (first : Operand) (links : List Link) :
    ∃ taken tree, taken <+: links ∧
      Answers ⟨(rowTokens ending first links).toArray, memoize⟩ ⟨0, blocks, .empty⟩ .expression
        (.ok tree) (2 * taken.length + 1) ∧
      Brackets first taken tree ∧
      (∀ other, Brackets first taken other → other.erase = tree.erase) ∧
      ∀ more other, more <+: links → Brackets first more other → more.length ≤ taken.length := by
  have hfaces : (State.mk 0 blocks .empty).Faces ⟨(rowTokens ending first links).toArray, false⟩
      (blocks.headD 0) (beforeOperand ending first links) := ⟨rfl, rfl, rfl⟩
  obtain ⟨taken, left, tree, rfl, ⟨hbrackets, -, hstuck⟩, hyields⟩ :=
    climbs_expression (rowTokens ending first links).toArray (blocks.headD 0) ending first links
  obtain ⟨tree, position, heq, rfl, hstop⟩ := hyields _ hfaces
  have hposition : position = 2 * taken.length + 1 := by
    have hleft := congrArg List.length hstop.tokens
    simp only [State.position_moveTo, List.length_drop,
      rowTokens, List.length_cons, behindOperand, length_linkTokens, List.length_append] at hleft
    omega
  refine ⟨taken, _, List.prefix_append _ _, ?_, hbrackets, fun other ↦ hbrackets.erase_eq,
    fun more other hmore ↦ hbrackets.length_le hstuck hmore⟩
  rw [answers_iff _ (sound_empty _), ← hposition]
  exact heq

end Grammar

end Offside
