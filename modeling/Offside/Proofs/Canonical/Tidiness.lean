import Offside.Canonical.Tree
import Offside.Proofs.Canonical.Layout
import Offside.Proofs.Tree.WellFormed

/-!
# Canonical source is tidy

Pieces are laid between two conditions on edges if they are tidy from every place whose edge meets
the first, leave the level as it was, and leave an edge that meets the second (`Lays`). The pieces
of a well-formed tree are laid where an expression, a pattern or a type may begin, and they end a
line if they end with a block, and stand behind a terminal that closes them otherwise.
-/

namespace Offside

/-! ### Kinds at the ends -/

namespace TokenKind

/-- An expression, a pattern or a type may begin with the kind. -/
def opens : TokenKind → Bool
  | identifier | string | integer | float | boolean | character | leftParen | leftBracket
  | leftBrace | minus | exclamation | kwDo | kwNew | kwIf | underscore | doublePeriod => true
  | _ => false

/-- An expression, a pattern or a type may begin directly behind the kind. -/
def prefixes : TokenKind → Bool
  | leftParen | leftBracket | leftBrace | less | minus | exclamation | doublePeriod => true
  | _ => false

/-- What stands on a line and may be followed by more may end with the kind. -/
def closes : TokenKind → Bool
  | identifier | string | integer | float | boolean | character | rightParen | rightBracket
  | rightBrace | greater | comma | underscore | doublePeriod => true
  | _ => false

/-- The kind may stand directly behind what closes. -/
def separates : TokenKind → Bool
  | rightParen | rightBracket | rightBrace | greater | comma | colon | period => true
  | _ => false

private theorem not_clings_of_opens {kind next : TokenKind} (h : kind.prefixes = true)
    (hnext : next.opens = true) : kind.clings next = false := by
  cases kind <;> first
    | (cases h; done)
    | (cases next <;> first | (cases hnext; done) | rfl)

private theorem not_clings_of_closes {kind next : TokenKind} (h : kind.closes = true)
    (hnext : next.separates = true) : kind.clings next = false := by
  cases kind <;> first
    | (cases h; done)
    | (cases next <;> first | (cases hnext; done) | rfl)

end TokenKind

namespace Canonical

/-! ### Conditions on edges -/

namespace Edge

/-- An expression, a pattern or a type may begin here. -/
def Opens (edge : Edge) : Prop := ∀ kind : TokenKind, kind.opens = true → edge.Admits kind

/-- Something ends here and the line goes on. -/
def Shut (edge : Edge) : Prop := ∃ kind : TokenKind, edge = .behind kind ∧ kind.closes = true

/-- Something ends here, and with it the line if it may end with a block. -/
def Ended (block : Bool) (edge : Edge) : Prop := edge.Shut ∨ block = true ∧ edge = .fresh

/-- Every piece may stand on a fresh line. -/
theorem opens_fresh : Opens fresh := fun _ _ ↦ trivial

private theorem opens_spaced : Opens spaced := fun _ _ ↦ trivial

private theorem opens_behind {kind : TokenKind} (h : kind.prefixes = true) : Opens (behind kind) :=
  fun _ hnext ↦ TokenKind.not_clings_of_opens h hnext

variable {edge : Edge} {block : Bool}

/-- What shuts its line has ended, whether or not it may end with a block. -/
theorem Shut.ended (h : edge.Shut) (block : Bool) : edge.Ended block := .inl h

/-- What may not end with a block shuts its line. -/
theorem Ended.shut (h : edge.Ended false) : edge.Shut := by
  obtain h | ⟨⟨⟩, -⟩ := h
  exact h

/-- What has ended has ended for those that may end with a block. -/
theorem Ended.mono (h : edge.Ended block) : edge.Ended true := h.imp_right fun h ↦ ⟨rfl, h.2⟩

private theorem Ended.admits (h : edge.Ended block) {kind : TokenKind}
    (hkind : kind.separates = true) :
    edge.Admits kind := by
  obtain ⟨before, rfl, hbefore⟩ | ⟨-, rfl⟩ := h
  · exact TokenKind.not_clings_of_closes hbefore hkind
  · trivial

end Edge

open Edge

/-! ### Laying pieces -/

/-- The pieces are tidy behind an edge of the first kind, and leave the level and an edge of the
second kind. -/
structure Lays (before after : Edge → Prop) (pieces : List Piece) : Prop where
  tidy : ∀ spot : Spot, before spot.edge → Tidy spot pieces
  level : ∀ spot : Spot, (spot.after pieces).level = spot.level
  edge : ∀ spot : Spot, after (spot.after pieces).edge

section Laying

variable {before middle after weaker : Edge → Prop} {pieces more : List Piece} {kind : TokenKind}
  {block : Bool}

/-- Pieces are laid one behind the other where the first leave what the others need. -/
theorem Lays.append (h : Lays before middle pieces) (hmore : Lays middle after more) :
    Lays before after (pieces ++ more) := by
  refine ⟨fun spot hspot ↦ ?_, fun spot ↦ ?_, fun spot ↦ ?_⟩
  · rw [tidy_append]
    exact ⟨h.tidy spot hspot, hmore.tidy _ (h.edge spot)⟩
  · rw [Spot.after_append, hmore.level, h.level]
  · rw [Spot.after_append]
    exact hmore.edge _

/-- Laid pieces come back to the column in which they began. -/
theorem Lays.column (h : Lays before after pieces) (spot : Spot) :
    (spot.after pieces).column = spot.column := by
  rw [Spot.column, h.level, Spot.column]

/-- Laid pieces leave whatever follows from the edge that they leave. -/
theorem Lays.mono (h : Lays before after pieces) (hweaker : ∀ edge, after edge → weaker edge) :
    Lays before weaker pieces := ⟨h.tidy, h.level, fun spot ↦ hweaker _ (h.edge spot)⟩

/-- Laid pieces may stand wherever the edge says more than they need. -/
theorem Lays.behind (h : Lays before after pieces) (hstronger : ∀ edge, weaker edge → before edge) :
    Lays weaker after pieces := ⟨fun spot hspot ↦ h.tidy spot (hstronger _ hspot), h.level, h.edge⟩

private theorem lays_terminal {written : Terminal} (h : written.Legible) :
    Lays (·.Admits written.kind) (· = .behind written.kind) [.terminal written] :=
  ⟨fun _ hspot ↦ ⟨⟨h, hspot⟩, trivial⟩, fun _ ↦ rfl, fun _ ↦ rfl⟩

private theorem lays_symbol (h : kind ∈ TokenKind.spelled) :
    Lays (·.Admits kind) (· = .behind kind) (symbol kind) := lays_terminal (.spelled h)

private theorem lays_space : Lays Shut (· = .spaced) [.space] :=
  ⟨fun _ ⟨kind, hkind, _⟩ ↦ ⟨⟨kind, hkind⟩, trivial⟩, fun _ ↦ rfl, fun _ ↦ rfl⟩

private theorem lays_endLine : Lays (Ended block) (· = .fresh) [.endLine] := by
  refine ⟨fun spot hspot ↦ ⟨?_, trivial⟩, fun _ ↦ rfl, fun _ ↦ rfl⟩
  change spot.edge ≠ .spaced
  obtain ⟨kind, hkind, -⟩ | ⟨-, hfresh⟩ := hspot
  · rw [hkind]
    rintro ⟨⟩
  · rw [hfresh]
    rintro ⟨⟩

/-- A name or a literal. -/
theorem lays_leaf {written : Terminal} (h : written.Legible) (hopens : written.kind.opens = true)
    (hcloses : written.kind.closes = true) : Lays Opens Shut [.terminal written] :=
  ((lays_terminal h).behind fun _ hedge ↦ hedge _ hopens).mono fun _ hedge ↦ ⟨_, hedge, hcloses⟩

/-- A name may stand where pieces may be opened, and shuts its line. -/
theorem lays_identifier {value : String} (h : Named value) : Lays Opens Shut (identifier value) :=
  lays_leaf (.identifier h) rfl rfl

/-- A bracket or a sign before something. -/
theorem lays_sign (hspelled : kind ∈ TokenKind.spelled) (hopens : kind.opens = true)
    (hprefixes : kind.prefixes = true) : Lays Opens Opens (symbol kind) := by
  refine ((lays_symbol hspelled).behind fun _ hedge ↦ hedge _ hopens).mono fun _ hedge ↦ ?_
  rw [hedge]
  exact opens_behind hprefixes

/-- A bracket behind something. -/
theorem lays_closing (hspelled : kind ∈ TokenKind.spelled) (hseparates : kind.separates = true)
    (hcloses : kind.closes = true) : Lays (Ended block) Shut (symbol kind) :=
  ((lays_symbol hspelled).behind fun _ hedge ↦ hedge.admits hseparates).mono
    fun _ hedge ↦ ⟨kind, hedge, hcloses⟩

/-- A sign and a space. -/
theorem lays_symbolSpace (hspelled : kind ∈ TokenKind.spelled) :
    Lays (·.Admits kind) Opens (symbolSpace kind) :=
  ⟨fun _ hspot ↦ ⟨⟨.spelled hspelled, hspot⟩, ⟨kind, rfl⟩, trivial⟩, fun _ ↦ rfl,
    fun _ ↦ opens_spaced⟩

/-- A sign between spaces. -/
theorem lays_spaceSymbolSpace (hspelled : kind ∈ TokenKind.spelled) :
    Lays Shut Opens (spaceSymbolSpace kind) :=
  lays_space.append ((lays_symbolSpace hspelled).behind fun edge hedge ↦ by
    rw [hedge]
    trivial)

/-- Items with commas between them are laid if the items are. -/
theorem lays_commas {items : List (List Piece)}
    (h : ∀ item ∈ items, Lays Opens (Ended true) item) (hne : items ≠ []) :
    Lays Opens (Ended true) (commas items) := by
  match items with
  | [] => exact absurd rfl hne
  | [item] => exact h item (List.mem_singleton_self _)
  | first :: second :: rest =>
    have hcomma : Lays (Ended true) Opens (symbolSpace .comma) :=
      (lays_symbolSpace (by decide)).behind fun _ hedge ↦ hedge.admits rfl
    exact ((h first List.mem_cons_self).append hcomma).append
      (lays_commas (fun item hitem ↦ h item (List.mem_cons_of_mem _ hitem)) (List.cons_ne_nil _ _))

private theorem lays_between {opening closing : TokenKind} (hopening : opening ∈ TokenKind.spelled)
    (hclosing : closing ∈ TokenKind.spelled) (hprefixes : opening.prefixes = true)
    (hseparates : closing.separates = true) (hcloses : closing.closes = true)
    (hclings : opening.clings closing = false)
    (h : pieces ≠ [] → Lays Opens (Ended true) pieces) :
    Lays (·.Admits opening) Shut (symbol opening ++ pieces ++ symbol closing) := by
  by_cases hnil : pieces = []
  · subst hnil
    rw [List.append_nil]
    refine (lays_symbol hopening).append
      (((lays_symbol hclosing).behind fun _ hedge ↦ ?_).mono
        fun _ hedge ↦ ⟨closing, hedge, hcloses⟩)
    rw [hedge]
    exact hclings
  · have hopens : Lays (·.Admits opening) Opens (symbol opening) :=
      (lays_symbol hopening).mono fun _ hedge ↦ hedge ▸ opens_behind hprefixes
    exact (hopens.append (h hnil)).append (lays_closing hclosing hseparates hcloses)

/-- Parentheses may follow a name. -/
theorem lays_parentheses (h : pieces ≠ [] → Lays Opens (Ended true) pieces) :
    Lays (·.Admits .leftParen) Shut (parenthesized pieces) :=
  lays_between (by decide) (by decide) rfl rfl rfl rfl h

private theorem lays_parenthesized (h : pieces ≠ [] → Lays Opens (Ended true) pieces) :
    Lays Opens Shut (parenthesized pieces) :=
  (lays_parentheses h).behind fun _ hedge ↦ hedge _ rfl

private theorem lays_bracketed (h : pieces ≠ [] → Lays Opens (Ended true) pieces) :
    Lays Opens Shut (bracketed pieces) :=
  (lays_between (by decide) (by decide) rfl rfl rfl rfl h).behind fun _ hedge ↦ hedge _ rfl

private theorem lays_loneComma {α : Type} (h : Lays Opens (Ended true) pieces) (items : List α) :
    Lays Opens (Ended true) (pieces ++ loneComma items) := by
  unfold loneComma
  split
  · exact h.append ((lays_closing (by decide) rfl rfl).mono fun _ hedge ↦ hedge.ended true)
  · rw [List.append_nil]
    exact h

/-- The name of a property. -/
theorem lays_periodName {value : String} (h : Named value) :
    Lays Shut Shut (symbol .period ++ identifier value) := by
  have hperiod : Lays Shut (· = .behind .period) (symbol .period) :=
    (lays_symbol (by decide)).behind fun _ hedge ↦ (hedge.ended false).admits rfl
  refine hperiod.append (((lays_terminal (.identifier h)).behind fun _ hedge ↦ ?_).mono
    fun _ hedge ↦ ⟨_, hedge, rfl⟩)
  rw [hedge]
  rfl

/-! ### Lines -/

/-- The pieces are lines: from a fresh place on they are tidy, and they lead back to it. -/
def LaysLines (pieces : List Piece) : Prop :=
  ∀ spot : Spot, spot.edge = .fresh → Tidy spot pieces ∧ spot.after pieces = spot

private theorem laysLines_nil : LaysLines [] := fun _ _ ↦ ⟨trivial, rfl⟩

private theorem laysLines_endLine : LaysLines [.endLine] := by
  rintro ⟨level, _⟩ ⟨⟩
  exact ⟨⟨by rintro ⟨⟩, trivial⟩, rfl⟩

/-- Pieces that begin and end on fresh lines are lines. -/
theorem Lays.lines (h : Lays (· = .fresh) (· = .fresh) pieces) : LaysLines pieces := by
  refine fun spot hspot ↦ ⟨h.tidy spot hspot, ?_⟩
  obtain ⟨level, edge⟩ := spot
  obtain rfl : edge = .fresh := hspot
  have hlevel := h.level ⟨level, .fresh⟩
  have hedge := h.edge ⟨level, .fresh⟩
  cases hafter : Spot.after ⟨level, .fresh⟩ pieces
  rw [hafter] at hlevel hedge
  cases hlevel
  cases hedge
  rfl

private theorem LaysLines.append (h : LaysLines pieces) (hmore : LaysLines more) :
    LaysLines (pieces ++ more) := by
  intro spot hspot
  obtain ⟨htidy, hafter⟩ := h spot hspot
  rw [tidy_append, Spot.after_append, hafter]
  exact ⟨⟨htidy, (hmore spot hspot).1⟩, (hmore spot hspot).2⟩

/-- Lines are laid one below the other. -/
theorem laysLines_flatMap {α : Type} {items : List α} {write : α → List Piece}
    (h : ∀ item ∈ items, LaysLines (write item)) : LaysLines (items.flatMap write) := by
  induction items with
  | nil => exact laysLines_nil
  | cons item items ih =>
    rw [List.forall_mem_cons] at h
    rw [List.flatMap_cons]
    exact h.1.append (ih h.2)

private theorem Lays.append_lines (h : Lays before (· = .fresh) pieces) (hmore : LaysLines more) :
    Lays before (· = .fresh) (pieces ++ more) := by
  have hafter (spot : Spot) := hmore (spot.after pieces) (h.edge spot)
  refine ⟨fun spot hspot ↦ ?_, fun spot ↦ ?_, fun spot ↦ ?_⟩
  · rw [tidy_append]
    exact ⟨h.tidy spot hspot, (hafter spot).1⟩
  · rw [Spot.after_append, (hafter spot).2, h.level]
  · rw [Spot.after_append, (hafter spot).2, h.edge]

/-- A line end and indented lines. -/
theorem lays_indented (h : LaysLines pieces) :
    Lays (· ≠ .spaced) (· = .fresh) ([.newline, .indent] ++ pieces ++ [.dedent]) := by
  have hinside (spot : Spot) := h ⟨spot.level + 1, .fresh⟩ rfl
  have hafter (spot : Spot) :
      spot.after ([.newline, .indent] ++ pieces ++ [.dedent]) = ⟨spot.level, .fresh⟩ := by
    rw [Spot.after_append, Spot.after_append]
    change Spot.after (Spot.after ⟨spot.level + 1, .fresh⟩ pieces) [.dedent] = _
    rw [(hinside spot).2]
    rfl
  refine ⟨fun spot hspot ↦ ?_, fun spot ↦ by rw [hafter], fun spot ↦ by rw [hafter]⟩
  rw [List.append_assoc]
  refine ⟨hspot, rfl, ?_⟩
  change Tidy ⟨spot.level + 1, .fresh⟩ (pieces ++ [.dedent])
  rw [tidy_append, (hinside spot).2]
  exact ⟨(hinside spot).1, rfl, trivial⟩

end Laying

end Canonical

open Canonical Edge

/-! ### Types, patterns and paths -/

private theorem lays_less {value : String} (h : Named value) :
    Lays Opens Opens (identifier value ++ symbol .less) := by
  have hname : Lays Opens (· = .behind .identifier) (identifier value) :=
    (lays_terminal (.identifier h)).behind fun _ hedge ↦ hedge _ rfl
  refine hname.append (((lays_symbol (by decide)).behind fun _ hedge ↦ ?_).mono fun _ hedge ↦ ?_)
  · rw [hedge]
    rfl
  · rw [hedge]
    exact opens_behind rfl

mutual

/-- The pieces of a type. -/
theorem TypeExpr.WellFormed.lays :
    {type : TypeExpr} → type.WellFormed → Lays Opens Shut type.pieces
  | .named _ _ [], h => by
    unfold TypeExpr.pieces
    exact lays_identifier h.1
  | .named _ _ (_ :: _), h => by
    unfold TypeExpr.pieces
    exact ((lays_less h.1).append (lays_commas (lays_typePieces h.2) (List.cons_ne_nil _ _))).append
      (lays_closing (by decide) rfl rfl)
  | .list _ element, h => by
    have helement : element.WellFormed := h
    unfold TypeExpr.pieces
    exact lays_bracketed fun _ ↦ helement.lays.mono fun _ hedge ↦ hedge.ended true
  | .tuple _ [], h => absurd rfl h.1
  | .tuple _ (first :: rest), h => by
    unfold TypeExpr.pieces
    exact lays_parenthesized fun _ ↦
      lays_loneComma (lays_commas (lays_typePieces h.2) (List.cons_ne_nil _ _)) (first :: rest)
  | .variadic .., h => by
    unfold TypeExpr.pieces
    exact (lays_sign (by decide) rfl rfl).append (TypeExpr.WellFormed.lays h)

/-- The pieces of each of several types. -/
theorem lays_typePieces : {types : List TypeExpr} → typesWellFormed types →
    ∀ item ∈ typePieces types, Lays Opens (Ended true) item
  | [], _ => List.forall_mem_nil _
  | _ :: _, h => List.forall_mem_cons.2
    ⟨h.1.lays.mono fun _ hedge ↦ hedge.ended true, lays_typePieces h.2⟩

end

mutual

/-- The pieces of a pattern. -/
theorem Pattern.WellFormed.lays :
    {pattern : Pattern} → pattern.WellFormed → Lays Opens Shut pattern.pieces
  | .name .., h => by
    unfold Pattern.pieces
    exact lays_identifier h
  | .ignored _, _ => by
    unfold Pattern.pieces
    exact lays_leaf (.spelled (by decide)) rfl rfl
  | .list _ [], _ => by
    unfold Pattern.pieces
    exact lays_bracketed fun hne ↦ absurd rfl hne
  | .list _ (_ :: _), h => by
    unfold Pattern.pieces
    exact lays_bracketed fun _ ↦ lays_commas (lays_patternPieces h.2) (List.cons_ne_nil _ _)
  | .tuple _ [], h => absurd rfl h.1
  | .tuple _ (first :: rest), h => by
    unfold Pattern.pieces
    exact lays_parenthesized fun _ ↦
      lays_loneComma (lays_commas (lays_patternPieces h.2.2) (List.cons_ne_nil _ _)) (first :: rest)
  | .variadic _ none, _ => by
    unfold Pattern.pieces
    exact lays_leaf (.spelled (by decide)) rfl rfl
  | .variadic _ (some _), h => by
    unfold Pattern.pieces
    exact (lays_sign (by decide) rfl rfl).append (Pattern.WellFormed.lays h)

/-- The pieces of each of several patterns. -/
theorem lays_patternPieces : {patterns : List Pattern} → patternsWellFormed patterns →
    ∀ item ∈ patternPieces patterns, Lays Opens (Ended true) item
  | [], _ => List.forall_mem_nil _
  | _ :: _, h => List.forall_mem_cons.2
    ⟨h.1.lays.mono fun _ hedge ↦ hedge.ended true, lays_patternPieces h.2⟩

end

/-- The pieces of a path. -/
theorem Path.WellFormed.lays : {path : Path} → path.WellFormed → Lays Opens Shut path.pieces
  | .name .., h => lays_identifier h
  | .property _ inner value, h => by
    unfold Path.pieces
    rw [List.append_assoc]
    exact (Path.WellFormed.lays h.1).append (lays_periodName h.2)

/-! ### Expressions and statements -/

/-- How tightly the topmost form of an expression binds. -/
def Expression.rank : Expression → Nat
  | conditional .. => Precedence.loosest.rank
  | send .. => Precedence.application.rank
  | binary _ operator .. => operator.level.precedence
  | unary .. => Precedence.unary.rank
  | property .. => Precedence.property.rank
  | _ => Precedence.property.rank + 1

/-- The left operand of an operator need not be tighter than the operands of multiplication. -/
theorem BinaryOperator.leftRank_le (operator : BinaryOperator) : operator.leftRank ≤ 8 := by
  cases operator <;> decide

/-- No operator binds more tightly than multiplication. -/
theorem BinaryOperator.precedence_le (operator : BinaryOperator) :
    operator.level.precedence ≤ 8 := by
  cases operator <;> decide

/-- The token of an operator is a spelled one. -/
theorem BinaryOperator.spelled_token (operator : BinaryOperator) :
    operator.token ∈ TokenKind.spelled := by
  cases operator <;> decide

/-- No expression is tighter than an atom. -/
theorem Expression.rank_le (expression : Expression) : expression.rank ≤ 11 := by
  cases expression with
  | binary _ operator => exact Nat.le_trans operator.precedence_le (by decide)
  | _ => exact Nat.le_of_ble_eq_true rfl

/-- No expression binds too loosely for the loosest place. -/
theorem parenthesizedIf_loosest (rank : Nat) (pieces : List Piece) :
    parenthesizedIf (rank < Precedence.loosest.rank) pieces = pieces := by
  have hnot : ¬ rank < Precedence.loosest.rank := Nat.not_lt_zero rank
  rw [decide_eq_false hnot]
  rfl

/-- An expression that binds less tightly than its place asks for is written between parentheses. -/
theorem Expression.pieces_eq (expression : Expression) {rank : Nat} (hrank : rank ≤ 11) :
    expression.pieces rank =
      parenthesizedIf (expression.rank < rank) (expression.pieces Precedence.loosest.rank) := by
  cases expression with
  | conditional | send | binary | unary | property =>
    simp only [Expression.pieces, parenthesizedIf_loosest]
    rfl
  | _ =>
    have hatom : ¬ Precedence.property.rank + 1 < rank := Nat.not_lt.2 hrank
    simp only [Expression.pieces, Expression.rank, hatom, decide_false]
    rfl

/-- The loosest place is as loose between parentheses. -/
theorem rankInside_loosest (parentheses : Bool) :
    rankInside parentheses Precedence.loosest.rank = Precedence.loosest.rank := by
  cases parentheses <;> rfl

section Lays

variable {expression : Expression} {block : Bool} {rank : Nat} {pieces : List Piece}

private theorem lays_parenthesizedIf (h : Lays Opens (Ended block) pieces) (needed : Bool) :
    Lays Opens (Ended (!needed && block)) (parenthesizedIf needed pieces) := by
  cases needed with
  | false => exact h
  | true =>
    have hinside : Lays Opens (Ended true) pieces := h.mono fun _ hedge ↦ hedge.mono
    exact (lays_parenthesized fun _ ↦ hinside).mono fun _ hedge ↦ hedge.ended _

/-- An expression in a place that asks for a rank. -/
theorem lays_inPlace
    (h : Lays Opens (Ended expression.endsWithBlock) (expression.pieces Precedence.loosest.rank))
    (hrank : rank ≤ 11) :
    Lays Opens (Ended expression.endsWithBlock) (expression.pieces rank) := by
  rw [expression.pieces_eq hrank]
  refine (lays_parenthesizedIf h _).mono fun edge hedge ↦ ?_
  cases hends : expression.endsWithBlock with
  | true => exact hedge.mono
  | false => rwa [hends, Bool.and_false] at hedge

/-- An expression that may be between parentheses. -/
theorem lays_guarded
    (h : Lays Opens (Ended expression.endsWithBlock) (expression.pieces Precedence.loosest.rank))
    (hrank : rank ≤ 11) (needed : Bool) :
    Lays Opens (Ended (!needed && expression.endsWithBlock))
      (parenthesizedIf needed (expression.pieces (rankInside needed rank))) := by
  cases needed with
  | false => exact lays_inPlace h hrank
  | true => exact lays_parenthesizedIf h true

/-- An expression behind which the line goes on. -/
theorem lays_shut
    (h : Lays Opens (Ended expression.endsWithBlock) (expression.pieces Precedence.loosest.rank))
    (hrank : rank ≤ 11) :
    Lays Opens Shut (parenthesizedIf expression.endsWithBlock
      (expression.pieces (rankInside expression.endsWithBlock rank))) := by
  refine (lays_guarded h hrank expression.endsWithBlock).mono fun edge hedge ↦ ?_
  rw [Bool.not_and_self] at hedge
  exact hedge.shut

end Lays

/-- The pieces of statements stand one behind the other. -/
theorem statementPieces_eq (statements : List Statement) :
    statementPieces statements = statements.flatMap Statement.pieces := by
  induction statements with
  | nil => rfl
  | cons statement rest ih => rw [statementPieces, ih, List.flatMap_cons]

/-- The pieces of further conditions stand one behind the other. -/
theorem elseIfPieces_eq (alternatives : List ElseIf) :
    elseIfPieces alternatives = alternatives.flatMap ElseIf.pieces := by
  induction alternatives with
  | nil => rfl
  | cons alternative rest ih => rw [elseIfPieces, ih, List.flatMap_cons]

/-- Several expressions are written one by one, each as a whole expression. -/
theorem expressionPieces_eq (expressions : List Expression) :
    expressionPieces expressions = expressions.map (Expression.pieces Precedence.loosest.rank) := by
  induction expressions with
  | nil => rfl
  | cons expression rest ih => rw [expressionPieces, ih, List.map_cons]

/-- Several arguments are written one by one. -/
theorem argumentPieces_eq (arguments : List Argument) :
    argumentPieces arguments = arguments.map Argument.pieces := by
  induction arguments with
  | nil => rfl
  | cons argument rest ih => rw [argumentPieces, ih, List.map_cons]

/-- The pieces of a body. -/
theorem lays_body {statements : List Statement} (location : Location)
    (h : ∀ statement ∈ statements, Lays (· = .fresh) (· = .fresh) statement.pieces) :
    Lays (·.Admits .colon) (· = .fresh) (Block.mk location statements).pieces := by
  have hlines : LaysLines (statementPieces statements) := by
    rw [statementPieces_eq]
    exact laysLines_flatMap fun statement hstatement ↦ (h statement hstatement).lines
  have hcolon : Lays (·.Admits .colon) (· ≠ .spaced) (symbol .colon) :=
    (lays_symbol (by decide)).mono fun edge hedge ↦ by
      rw [hedge]
      rintro ⟨⟩
  unfold Block.pieces
  rw [List.append_assoc, List.append_assoc, ← List.append_assoc [_, _]]
  exact hcolon.append (lays_indented hlines)

/-- The pieces of a condition, behind which stands a body. -/
theorem lays_condition {expression : Expression} {body : Block}
    (h : Lays Opens (Ended expression.endsWithBlock) (expression.pieces Precedence.loosest.rank))
    (hbody : Lays (·.Admits .colon) (· = .fresh) body.pieces) :
    Lays Opens (· = .fresh) (parenthesizedIf expression.endsWithBlock
      (expression.pieces Precedence.loosest.rank) ++ body.pieces) := by
  have hshut := lays_shut h (show Precedence.loosest.rank ≤ 11 from Nat.zero_le 11)
  rw [rankInside_loosest] at hshut
  exact hshut.append (hbody.behind fun _ hedge ↦ (hedge.ended false).admits rfl)

private theorem lays_expressionPieces {expressions : List Expression}
    (h : ∀ expression ∈ expressions, Lays Opens (Ended expression.endsWithBlock)
      (expression.pieces Precedence.loosest.rank)) :
    ∀ item ∈ expressionPieces expressions, Lays Opens (Ended true) item := by
  rw [expressionPieces_eq]
  rintro _ hitem
  obtain ⟨expression, hmem, rfl⟩ := List.mem_map.1 hitem
  exact (h expression hmem).mono fun _ hedge ↦ hedge.mono

/-- The pieces of a further condition and its body. -/
theorem laysLines_elseIf {test : Expression} {further : Block} (location : Location)
    (htest : Lays Opens (Ended test.endsWithBlock) (test.pieces Precedence.loosest.rank))
    (hbody : Lays (·.Admits .colon) (· = .fresh) further.pieces) :
    LaysLines (ElseIf.mk location test further).pieces := by
  have helse : Lays (· = .fresh) Opens (symbolSpace .kwElse) :=
    (lays_symbolSpace (by decide)).behind fun _ hedge ↦ hedge ▸ trivial
  have hif : Lays Opens Opens (symbolSpace .kwIf) :=
    (lays_symbolSpace (by decide)).behind fun _ hedge ↦ hedge _ rfl
  unfold ElseIf.pieces
  rw [List.append_assoc (symbolSpace .kwElse ++ symbolSpace .kwIf)]
  exact ((helse.append hif).append (lays_condition htest hbody)).lines

/-- The pieces of the body for want of a true condition. -/
theorem laysLines_otherwise {otherwise : Option Block}
    (h : ∀ last ∈ otherwise, Lays (·.Admits .colon) (· = .fresh) last.pieces) :
    LaysLines (otherwisePieces otherwise) := by
  cases otherwise with
  | none => exact laysLines_nil
  | some last =>
    have helse : Lays (· = .fresh) (·.Admits .colon) (symbol .kwElse) :=
      ((lays_symbol (by decide)).behind fun _ hedge ↦ hedge ▸ trivial).mono
        fun _ hedge ↦ hedge ▸ rfl
    exact (helse.append (h last rfl)).lines

/-- The pieces of an argument. -/
theorem lays_argument {key : String} {value : Expression} (location : Location) (hkey : Named key)
    (hvalue : Lays Opens (Ended value.endsWithBlock) (value.pieces Precedence.loosest.rank)) :
    Lays Opens (Ended true) (Argument.mk location key value).pieces := by
  have hcolon : Lays Shut Opens (symbolSpace .colon) :=
    (lays_symbolSpace (by decide)).behind fun _ hedge ↦ (hedge.ended false).admits rfl
  exact ((lays_identifier hkey).append hcolon).append (hvalue.mono fun _ hedge ↦ hedge.mono)

/-- The pieces of well-formed expressions, bodies and statements. -/
theorem lays_wellFormed : wellFormed.Proof
    (fun expression ↦ Lays Opens (Ended expression.endsWithBlock)
      (expression.pieces Precedence.loosest.rank))
    (fun body ↦ Lays (·.Admits .colon) (· = .fresh) body.pieces)
    (fun statement ↦ Lays (· = .fresh) (· = .fresh) statement.pieces) where
  name _ _ h := by
    unfold Expression.pieces
    exact (lays_identifier h).mono fun _ hedge ↦ hedge.ended _
  string _ value _ := by
    unfold Expression.pieces
    exact (lays_leaf (.string value) rfl rfl).mono fun _ hedge ↦ hedge.ended _
  integer _ value h := by
    unfold Expression.pieces
    obtain ⟨value, rfl⟩ := Int.eq_ofNat_of_zero_le h
    exact (lays_leaf (.integer value) rfl rfl).mono fun _ hedge ↦ hedge.ended _
  float _ value h := by
    unfold Expression.pieces
    exact (lays_leaf (.float h.1 h.2) rfl rfl).mono fun _ hedge ↦ hedge.ended _
  boolean _ value _ := by
    unfold Expression.pieces
    exact (lays_leaf (.boolean value) rfl rfl).mono fun _ hedge ↦ hedge.ended _
  character _ value _ := by
    unfold Expression.pieces
    exact (lays_leaf (.character value) rfl rfl).mono fun _ hedge ↦ hedge.ended _
  create _ type h := by
    unfold Expression.pieces
    have hnew : Lays Opens Opens (symbolSpace .kwNew) :=
      (lays_symbolSpace (by decide)).behind fun _ hedge ↦ hedge _ rfl
    exact (hnew.append (TypeExpr.WellFormed.lays h)).mono fun _ hedge ↦ hedge.ended _
  tuple _ elements hne h := by
    unfold Expression.pieces
    have hne' : expressionPieces elements ≠ [] := by
      rw [expressionPieces_eq]
      exact fun hnil ↦ hne (List.map_eq_nil_iff.1 hnil)
    have hitems := lays_commas (lays_expressionPieces h) hne'
    exact (lays_parenthesized fun _ ↦ lays_loneComma hitems elements).mono
      fun _ hedge ↦ hedge.ended _
  list _ elements _ h := by
    unfold Expression.pieces
    refine (lays_bracketed fun hne ↦ lays_commas (lays_expressionPieces h) ?_).mono
      fun _ hedge ↦ hedge.ended _
    intro hnil
    rw [hnil] at hne
    exact hne rfl
  binary _ operator left right _ hleft hright := by
    unfold Expression.pieces
    rw [parenthesizedIf_loosest]
    exact ((lays_shut hleft (Nat.le_trans operator.leftRank_le (by decide))).append
      (lays_spaceSymbolSpace operator.spelled_token)).append
        (lays_inPlace hright (Nat.le_trans (Nat.succ_le_succ operator.precedence_le) (by decide)))
  unary _ operator operand _ h := by
    unfold Expression.pieces
    rw [parenthesizedIf_loosest]
    have hsign : Lays Opens Opens (symbol operator.token) := by
      cases operator <;> exact lays_sign (by decide) rfl rfl
    exact hsign.append (lays_inPlace h (by decide))
  property _ root value hname h := by
    unfold Expression.pieces
    rw [parenthesizedIf_loosest, List.append_assoc]
    exact ((lays_shut h (by decide)).append (lays_periodName hname)).mono
      fun _ hedge ↦ hedge.ended _
  message _ header arguments hname h := by
    unfold Expression.pieces
    have hheader : Lays Opens Shut (symbol .leftBrace ++ identifier header) :=
      (lays_sign (by decide) rfl rfl).append (lays_identifier hname)
    have hclosing {block : Bool} : Lays (Ended block) (Ended false) (symbol .rightBrace) :=
      (lays_closing (by decide) rfl rfl).mono fun _ hedge ↦ hedge.ended _
    cases arguments with
    | nil =>
      rw [List.isEmpty_nil, if_pos rfl, List.append_nil]
      exact (hheader.mono fun _ hedge ↦ hedge.ended false).append hclosing
    | cons first rest =>
      have hitems : ∀ item ∈ argumentPieces (first :: rest), Lays Opens (Ended true) item := by
        rw [argumentPieces_eq]
        rintro _ hitem
        obtain ⟨⟨location, key, value⟩, hmem, rfl⟩ := List.mem_map.1 hitem
        obtain ⟨hkey, hvalue⟩ := h location key value hmem
        exact lays_argument location hkey hvalue
      have hspace : Lays Shut Opens [.space] :=
        lays_space.mono fun edge hedge ↦ hedge ▸ opens_spaced
      rw [List.isEmpty_cons, if_neg Bool.false_ne_true]
      exact (hheader.append (hspace.append (lays_commas hitems (List.cons_ne_nil _ _)))).append
        hclosing
  send _ receiver message _ hreceiver hmessage := by
    unfold Expression.pieces
    rw [parenthesizedIf_loosest]
    have hspace : Lays Shut Opens [.space] :=
      lays_space.mono fun edge hedge ↦ hedge ▸ opens_spaced
    refine ((lays_shut hreceiver (by decide)).append
      (hspace.append (lays_guarded hmessage (by decide) message.startsWithMinus))).mono
        fun edge hedge ↦ ?_
    change Ended message.endsWithBlock edge
    cases hminus : message.startsWithMinus with
    | false =>
      rw [hminus] at hedge
      exact hedge
    | true =>
      rw [hminus] at hedge
      exact hedge.shut.ended _
  block body _ h := by
    unfold Expression.pieces
    have hword : Lays Opens (·.Admits .colon) (symbol .kwDo) :=
      ((lays_symbol (by decide)).behind fun _ hedge ↦ hedge _ rfl).mono fun _ hedge ↦ hedge ▸ rfl
    exact (hword.append h).mono fun _ hedge ↦ .inr ⟨rfl, hedge⟩
  conditional _ condition body alternatives otherwise _ hcondition hbody halternatives
    hotherwise := by
    unfold Expression.pieces
    rw [parenthesizedIf_loosest, List.append_assoc (symbolSpace _)]
    have hword : Lays Opens Opens (symbolSpace .kwIf) :=
      (lays_symbolSpace (by decide)).behind fun _ hedge ↦ hedge _ rfl
    have hfurther : LaysLines (elseIfPieces alternatives) := by
      rw [elseIfPieces_eq]
      refine laysLines_flatMap fun alternative hmem ↦ ?_
      obtain ⟨location, test, further⟩ := alternative
      obtain ⟨htest, hbody⟩ := halternatives location test further hmem
      exact laysLines_elseIf location htest hbody
    exact (((hword.append (lays_condition hcondition hbody)).append_lines hfurther).append_lines
      (laysLines_otherwise hotherwise)).mono fun _ hedge ↦ .inr ⟨rfl, hedge⟩
  statements location statements _ h := lays_body location h
  bind _ pattern value hpattern h := by
    unfold Statement.pieces
    have hword : Lays (· = .fresh) Opens (symbolSpace .kwLet) :=
      (lays_symbolSpace (by decide)).behind fun _ hedge ↦ hedge ▸ trivial
    have hhead :=
      (hword.append hpattern.lays).append
        (lays_spaceSymbolSpace (show TokenKind.assign ∈ TokenKind.spelled by decide))
    exact (hhead.append h).append lays_endLine
  assign _ path value hpath h := by
    unfold Statement.pieces
    have hpath' : Lays (· = .fresh) Shut path.pieces :=
      (Path.WellFormed.lays hpath).behind fun _ hedge ↦ hedge ▸ opens_fresh
    exact ((hpath'.append (lays_spaceSymbolSpace (by decide))).append h).append lays_endLine
  forEach _ pattern iterable body hpattern hiterable hbody := by
    unfold Statement.pieces
    have hword : Lays (· = .fresh) Opens (symbolSpace .kwFor) :=
      (lays_symbolSpace (by decide)).behind fun _ hedge ↦ hedge ▸ trivial
    rw [List.append_assoc (_ ++ _ ++ spaceSymbolSpace .kwIn)]
    have hin : Lays Shut Opens (spaceSymbolSpace .kwIn) := lays_spaceSymbolSpace (by decide)
    exact (((hword.append (Pattern.WellFormed.lays hpattern)).append hin).append
      (lays_condition hiterable hbody)).append_lines laysLines_endLine
  loop _ condition body _ hcondition hbody := by
    unfold Statement.pieces
    have hword : Lays (· = .fresh) Opens (symbolSpace .kwWhile) :=
      (lays_symbolSpace (by decide)).behind fun _ hedge ↦ hedge ▸ trivial
    rw [List.append_assoc (symbolSpace _)]
    exact (hword.append (lays_condition hcondition hbody)).append_lines laysLines_endLine
  expression _ expression _ h := by
    unfold Statement.pieces
    have hfresh : Lays (· = .fresh) (Ended expression.endsWithBlock)
        (expression.pieces Precedence.loosest.rank) := h.behind fun _ hedge ↦ hedge ▸ opens_fresh
    exact hfresh.append lays_endLine

/-! ### Declarations -/

private theorem lays_annotated {type : TypeExpr} (h : type.WellFormed) :
    Lays Shut Shut (annotationPieces type) :=
  (lays_spaceSymbolSpace (by decide)).append h.lays

/-- A well-formed parameter is laid out like a name. -/
theorem Parameter.WellFormed.lays {parameter : Parameter} (h : parameter.WellFormed) :
    Lays Opens Shut parameter.pieces := by
  obtain ⟨location, value, type⟩ := parameter
  cases type with
  | none =>
    have hname := lays_identifier h.1
    rw [← List.append_nil (identifier _)] at hname
    exact hname
  | some type => exact (lays_identifier h.1).append (lays_annotated (h.2 type rfl))

private theorem lays_newline : Lays Shut (· = .fresh) [.newline] := by
  refine ⟨fun spot hspot ↦ ⟨?_, trivial⟩, fun _ ↦ rfl, fun _ ↦ rfl⟩
  obtain ⟨kind, hkind, -⟩ := hspot
  change spot.edge ≠ .spaced
  rw [hkind]
  rintro ⟨⟩

/-- A well-formed member is a line of its own. -/
theorem Member.WellFormed.lays {member : Member} (h : member.WellFormed) :
    Lays (· = .fresh) (· = .fresh) member.pieces := by
  have hname : Lays (· = .fresh) Shut (identifier member.name) :=
    (lays_identifier h.1).behind fun _ hedge ↦ hedge ▸ opens_fresh
  exact (hname.append (lays_annotated h.2)).append lays_newline

/-- The pieces of the head of a handler. -/
theorem Handler.WellFormed.lays_head {handler : Handler} (h : handler.WellFormed) :
    Lays (· = .fresh) Shut (identifier handler.name ++
      parenthesized (commas (handler.parameters.map Parameter.pieces))) := by
  obtain ⟨hname, hparameters, -⟩ := h
  have hitems : ∀ item ∈ handler.parameters.map Parameter.pieces, Lays Opens (Ended true) item := by
    rintro _ hitem
    obtain ⟨parameter, hmem, rfl⟩ := List.mem_map.1 hitem
    exact (hparameters parameter hmem).lays.mono fun _ hedge ↦ hedge.ended true
  have hhead : Lays (· = .fresh) (· = .behind .identifier) (identifier handler.name) :=
    (lays_terminal (.identifier hname)).behind fun _ hedge ↦ hedge ▸ trivial
  exact hhead.append ((lays_parentheses fun hne ↦ lays_commas hitems fun hnil ↦ hne
    (by rw [hnil]; rfl)).behind fun _ hedge ↦ hedge ▸ rfl)

/-- A well-formed handler takes up lines of its own. -/
theorem Handler.WellFormed.lays {handler : Handler} (h : handler.WellFormed) :
    Lays (· = .fresh) (· = .fresh) handler.pieces :=
  h.lays_head.append ((h.2.2.elim lays_wellFormed).behind
    fun _ hedge ↦ (hedge.ended false).admits rfl)

/-- A well-formed struct takes up lines of its own. -/
theorem Struct.WellFormed.lays {struct : Struct} (h : struct.WellFormed) :
    Lays (· = .fresh) (· = .fresh) struct.pieces := by
  obtain ⟨hname, -, hmembers, hhandlers⟩ := h
  have hitems : LaysLines
      (struct.members.flatMap Member.pieces ++ struct.handlers.flatMap Handler.pieces) :=
    (laysLines_flatMap fun member hmem ↦ (hmembers member hmem).lays.lines).append
      (laysLines_flatMap fun handler hmem ↦ (hhandlers handler hmem).lays.lines)
  have hword : Lays (· = .fresh) Opens (symbolSpace .kwStruct) :=
    (lays_symbolSpace (by decide)).behind fun _ hedge ↦ hedge ▸ trivial
  have hcolon : Lays Shut (· ≠ .spaced) (symbol .colon) :=
    ((lays_symbol (by decide)).behind fun _ hedge ↦ (hedge.ended false).admits rfl).mono
      fun _ hedge ↦ hedge ▸ by rintro ⟨⟩
  have hall := ((hword.append (lays_identifier hname)).append hcolon).append (lays_indented hitems)
  unfold Struct.pieces
  simpa only [List.append_assoc] using hall

private theorem laysLines_newline : LaysLines [.newline] := by
  rintro ⟨level, _⟩ ⟨⟩
  exact ⟨⟨by rintro ⟨⟩, trivial⟩, rfl⟩

/-- The pieces of a well-formed program. -/
theorem Program.WellFormed.lays {program : Program} (h : program.WellFormed) :
    LaysLines program.pieces := by
  obtain ⟨location, structs⟩ := program
  change ∀ struct ∈ structs, struct.WellFormed at h
  change LaysLines ((structs.map Struct.pieces).intersperse [.newline]).flatten
  induction structs with
  | nil => exact laysLines_nil
  | cons struct rest ih =>
    rw [List.forall_mem_cons] at h
    cases rest with
    | nil => simpa using h.1.lays.lines
    | cons second rest =>
      simpa using h.1.lays.lines.append (laysLines_newline.append (ih h.2))

/-- The canonical source of a well-formed program is tidy. -/
theorem Program.WellFormed.tidy {program : Program} (h : program.WellFormed) :
    Tidy ⟨0, .fresh⟩ program.pieces := (h.lays ⟨0, .fresh⟩ rfl).1

end Offside
