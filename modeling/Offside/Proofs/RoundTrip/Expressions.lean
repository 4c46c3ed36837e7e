import Offside.Proofs.RoundTrip.Borders

/-!
# Reading canonical expressions

An expression is read again where its pieces are written (`RereadsExpression`): without parentheses
it is reached in the place of its rank, and so it is read in every looser place, and between
parentheses in every place at all (`RereadsExpression.inPlace`). There is one lemma for each form of
expressions but for those with bodies.
-/

namespace Offside

open Packrat Canonical Edge

/-- The second expression is the first one up to locations, and stands in a file. -/
def Copies (expression copy : Expression) : Prop :=
  copy.erase = expression.erase ∧ copy.location.isGenerated = false

/-- Copies of operands with the operator between them are a copy of the whole: it stands where the
copy of the left operand does. -/
theorem Copies.applied {left right first second : Expression} (hleft : Copies left first)
    (hright : Copies right second) (location : Location) (operator : BinaryOperator) :
    Copies (.binary location operator left right) (Grammar.applied first operator second) := by
  refine ⟨?_, hleft.2⟩
  change Expression.binary .nowhere operator first.erase second.erase = _
  rw [hleft.1, hright.1]
  rfl

/-- Copies of a receiver and of what is sent to it are a copy of the whole. -/
theorem Copies.send {receiver sent first second : Expression} (hreceiver : Copies receiver first)
    (hsent : Copies sent second) (location : Location) :
    Copies (.send location receiver sent) (.send first.location first second) := by
  refine ⟨?_, hreceiver.2⟩
  change Expression.send .nowhere first.erase second.erase = _
  rw [hreceiver.1, hsent.1]
  rfl

private theorem eraseExpressions_eq (expressions : List Expression) :
    eraseExpressions expressions = expressions.map Expression.erase := by
  induction expressions with
  | nil => rfl
  | cons expression rest ih => rw [eraseExpressions, ih, List.map_cons]

private theorem eraseArguments_eq (arguments : List Argument) :
    eraseArguments arguments = arguments.map Argument.erase := by
  induction arguments with
  | nil => rfl
  | cons argument rest ih => rw [eraseArguments, ih, List.map_cons]

namespace Grammar

variable {tokens : Array Token} {spot : Spot} {view next : View} {rank column : Nat}
  {expression : Expression}

variable (tokens) in
/-- The expression is read where it is written, if nothing goes on with it. -/
structure RereadsExpression (expression : Expression) : Prop where
  lays : Lays Opens (Ended expression.endsWithBlock) (expression.pieces Precedence.loosest.rank)
  reaches : ∀ ⦃spot : Spot⦄ ⦃view next : View⦄,
    Writes spot (expression.pieces Precedence.loosest.rank) view next →
    next.Follows (expression.rank + 1) spot.column →
    (expression.endsOpen = true → ¬next.OpensArguments) →
    ReachesAt tokens expression.rank spot.column view next (Copies expression)

/-- An expression of the loosest rank is reached by its production. -/
theorem reachesAt_expression {indent : Nat} {claim : Expression → Prop}
    (h : (reader tokens (production .expression)).Yields tokens indent view next claim) :
    ReachesAt tokens 0 indent view next claim := yields_rule h

/-- An atom is reached by its production. -/
theorem reachesAt_atom {indent : Nat} {claim : Expression → Prop}
    (h : (reader tokens atom).Yields tokens indent view next claim) :
    ReachesAt tokens 11 indent view next claim :=
  yields_rule (show (reader tokens (production .atom)).Yields tokens indent view next claim from h)

private theorem reachesAt_unary {indent : Nat} {claim : Expression → Prop}
    (h : (reader tokens unary).Yields tokens indent view next claim) :
    ReachesAt tokens 9 indent view next claim :=
  yields_rule (show (reader tokens (production .unary)).Yields tokens indent view next claim from h)

/-! ### In places -/

private theorem RereadsExpression.bare (h : RereadsExpression tokens expression)
    (hrank : rank ≤ expression.rank)
    (hwrites : Writes spot (expression.pieces Precedence.loosest.rank) view next)
    (hcolumn : spot.column = column) (hnext : next.Follows rank column)
    (hopen : expression.endsOpen = true → ¬next.OpensArguments) :
    (reader tokens (place rank)).Yields tokens column view next (Copies expression) := by
  subst hcolumn
  obtain ⟨kind, hleads, -⟩ := expression.leads
  have hahead := (hwrites.head hleads.leading).1
  have hreaches := h.reaches hwrites (hnext.mono (Nat.le_succ_of_le hrank)) hopen
  refine yields_looser hrank expression.rank_le (hreaches.yields (hnext.mono hrank)) ?_ hnext
  rw [hahead]
  exact hleads.begins

private theorem RereadsExpression.laid (h : RereadsExpression tokens expression) :
    Laid (expression.pieces Precedence.loosest.rank) := by
  obtain ⟨kind, hleads, -⟩ := expression.leads
  exact ⟨h.lays.mono fun _ hedge ↦ hedge.mono, kind, hleads.leading⟩

/-- Before a comma or a closing sign an expression of any rank is read. -/
theorem RereadsExpression.rereads (h : RereadsExpression tokens expression) {closing : TokenKind}
    (hclosing : closing.stops = true) (spot : Spot) :
    Rereads tokens Grammar.expression (Expression.pieces Precedence.loosest.rank) Expression.erase
      closing spot.column spot.level expression := by
  rintro ⟨level, edge⟩ view next hwrites rfl hnext
  refine (h.bare (Nat.zero_le _) hwrites rfl (hnext.follows hclosing 0) fun _ ↦
    View.not_opensArguments fun hless ↦ ?_).mono fun _ hcopy ↦ hcopy.1
  obtain hkind | hkind := hnext.kind <;> rw [hless] at hkind
  · cases hkind
  · rw [← hkind] at hclosing
    cases hclosing

-- Parentheses leave no trace.
private theorem RereadsExpression.grouped (h : RereadsExpression tokens expression)
    (hwrites : Writes spot (parenthesized (expression.pieces Precedence.loosest.rank)) view next) :
    (reader tokens (place 11)).Yields tokens spot.column view next (Copies expression) := by
  obtain ⟨behind, hinside, hclosing⟩ := writes_append.1 hwrites
  obtain ⟨inside, hopening, hexpression⟩ := writes_append.1 hinside
  rw [Spot.after_append] at hclosing
  have hpassed := hopening.symbol
  have hbracket := Writes.symbol hclosing
  have hnext : behind.Separated .rightParen (spot.after (symbol .leftParen)).column :=
    separated_behind h.laid hexpression hclosing rfl (.inr rfl)
  have hread : (reader tokens Grammar.expression).Yields tokens spot.column inside behind
      (Copies expression) :=
    h.bare (Nat.zero_le _) hexpression rfl (hnext.follows rfl 0) fun _ ↦
      View.not_opensArguments (by rw [hbracket.ahead]; decide)
  have hfirst := (Step.yields_passed hpassed spot.column).seq hread.commit
  have hcomma : (reader tokens (.token .comma)).Declines tokens spot.column behind :=
    Step.declines_token (by rw [hbracket.ahead]; decide) spot.column
  have htuple : (reader tokens tuple).Declines tokens spot.column view :=
    ((hfirst.seq_declines ((hcomma.seq _).map _)).seq _).map _ |>.map _
  have hrefuses {parser : Parser Expression} (h : parser.Refuses (fun _ ↦ False) .leftParen) :
      (reader tokens parser).Declines tokens spot.column view := declines_of_refuses hpassed.ahead h
  refine yields_rule (yields_choice [doBlock, creation, message, tuple, list, literal] ?_
    (((Step.yields_passed hpassed spot.column).skipLeft hread.commit).skip
      (Step.yields_passed hbracket spot.column).commit))
  simp only [List.forall_mem_cons]
  exact ⟨hrefuses (by rintro ⟨⟩), hrefuses (by rintro ⟨⟩), hrefuses (by rintro ⟨⟩), htuple,
    hrefuses (by rintro ⟨⟩), hrefuses ⟨by rintro ⟨⟩, by rintro ⟨⟩, by rintro ⟨⟩, by rintro ⟨⟩,
      by rintro ⟨⟩, by rintro ⟨⟩, trivial⟩, List.forall_mem_nil _⟩

section InPlace

variable {parentheses : Bool}

/-- An expression is read in every place, between parentheses if the place asks for a higher
rank. -/
theorem RereadsExpression.inPlace (h : RereadsExpression tokens expression) (hrank : rank ≤ 11)
    (hparentheses : parentheses = false → rank ≤ expression.rank)
    (hwrites : Writes spot
      (parenthesizedIf parentheses (expression.pieces Precedence.loosest.rank)) view next)
    (hcolumn : spot.column = column) (hnext : next.Follows rank column)
    (hopen : parentheses = false → expression.endsOpen = true → ¬next.OpensArguments) :
    (reader tokens (place rank)).Yields tokens column view next (Copies expression) := by
  cases parentheses with
  | false => exact h.bare (hparentheses rfl) hwrites hcolumn hnext (hopen rfl)
  | true =>
    subst hcolumn
    refine yields_looser hrank (Nat.le_refl _) (h.grouped hwrites) ?_ hnext
    rw [(hwrites.head (leads_parenthesized _ 0).leading).1]
    rfl

/-- Where expressions chain, what goes on with an expression of the rank of its place is joined to
it. -/
theorem RereadsExpression.reachesInPlace (h : RereadsExpression tokens expression)
    (hchains : chainsAt rank = true) (hrank : rank < 11)
    (hparentheses : parentheses = false → rank ≤ expression.rank)
    (hwrites : Writes spot
      (parenthesizedIf parentheses (expression.pieces Precedence.loosest.rank)) view next)
    (hcolumn : spot.column = column) (hnext : next.Follows (rank + 1) column)
    (hopen : parentheses = false → expression.endsOpen = true → ¬next.OpensArguments) :
    ReachesAt tokens rank column view next (Copies expression) := by
  by_cases hbare : parentheses = false ∧ expression.rank = rank
  · obtain ⟨rfl, rfl⟩ := hbare
    subst hcolumn
    exact h.reaches hwrites hnext (hopen rfl)
  · refine reachesAt_of_tighter hchains
        (h.inPlace hrank (fun hfalse ↦ ?_) hwrites hcolumn hnext hopen)
    exact Nat.lt_of_le_of_ne (hparentheses hfalse) fun heq ↦ hbare ⟨hfalse, heq.symm⟩

end InPlace

/-! ### Names and literals -/

-- The kinds of names and literals.
private def Leaf (kind : TokenKind) : Prop :=
  kind = .identifier ∨ kind = .string ∨ kind = .integer ∨ kind = .float ∨ kind = .boolean ∨
    kind = .character

private theorem reaches_leaf {α : Type} {kind : TokenKind} {payload : Payload}
    {read : Payload → Option α} {value : α} {build : α × Location → Expression}
    (before : List (Parser Expression)) {after : List (Parser Expression)}
    (hliteral : literal = .choice (before ++ (Parser.value kind read).map build :: after))
    (hbefore : (Parser.choice before).Refuses (fun _ ↦ False) kind) (hleaf : Leaf kind)
    (hwrites : Writes spot [.terminal ⟨kind, payload⟩] view next)
    (hread : read payload = some value)
    (hbuild : ∀ location, location.isGenerated = false →
      Copies expression (build (value, location))) :
    ReachesAt tokens 11 spot.column view next (Copies expression) := by
  have hview := (hwrites.head rfl).1
  have hvalue : (reader tokens literal).Yields tokens spot.column view next
    (Copies expression) := by
    rw [hliteral]
    refine yields_choice_of_refuses hview before hbefore
      ((yields_leaf hwrites hread spot.column).map ?_)
    rintro ⟨value, location⟩ ⟨rfl, hlocation⟩
    exact hbuild location hlocation
  refine reachesAt_atom
    (yields_choice_of_refuses hview [doBlock, creation, message, tuple, list] ?_ hvalue)
  obtain rfl | rfl | rfl | rfl | rfl | rfl := hleaf <;>
    exact ⟨by rintro ⟨⟩, by rintro ⟨⟩, by rintro ⟨⟩, by rintro ⟨⟩, by rintro ⟨⟩, trivial⟩

/-- A name is read again. -/
theorem rereads_name {location : Location} {value : String} (h : Named value) :
    RereadsExpression tokens (.name location value) := by
  refine ⟨lays_wellFormed.name location value h, fun spot view next hwrites _ _ ↦ ?_⟩
  unfold Expression.pieces at hwrites
  exact reaches_leaf [] rfl trivial (.inl rfl) hwrites rfl fun _ hlocation ↦ ⟨rfl, hlocation⟩

/-- A string is read again. -/
theorem rereads_string (location : Location) (value : String) :
    RereadsExpression tokens (.string location value) := by
  refine ⟨lays_wellFormed.string location value trivial, fun spot view next hwrites _ _ ↦ ?_⟩
  unfold Expression.pieces at hwrites
  exact reaches_leaf [nameExpression] rfl ⟨by rintro ⟨⟩, trivial⟩ (.inr (.inl rfl)) hwrites rfl
    fun _ hlocation ↦ ⟨rfl, hlocation⟩

/-- An integer is read again if it has no sign. -/
theorem rereads_integer {location : Location} {value : Int} (h : 0 ≤ value) :
    RereadsExpression tokens (.integer location value) := by
  refine ⟨lays_wellFormed.integer location value h, fun spot view next hwrites _ _ ↦ ?_⟩
  unfold Expression.pieces at hwrites
  exact reaches_leaf [nameExpression, stringLiteral] rfl ⟨by rintro ⟨⟩, by rintro ⟨⟩, trivial⟩
    (.inr (.inr (.inl rfl))) hwrites rfl fun _ hlocation ↦ ⟨rfl, hlocation⟩

/-- A float is read again if it is finite and has no sign. -/
theorem rereads_float {location : Location} {value : Binary64}
    (h : value.isFinite = true ∧ value.isNegative = false) :
    RereadsExpression tokens (.float location value) := by
  refine ⟨lays_wellFormed.float location value h, fun spot view next hwrites _ _ ↦ ?_⟩
  unfold Expression.pieces at hwrites
  exact reaches_leaf [nameExpression, stringLiteral, integerLiteral] rfl
    ⟨by rintro ⟨⟩, by rintro ⟨⟩, by rintro ⟨⟩, trivial⟩ (.inr (.inr (.inr (.inl rfl)))) hwrites rfl
    fun _ hlocation ↦ ⟨rfl, hlocation⟩

/-- A truth value is read again. -/
theorem rereads_boolean (location : Location) (value : Bool) :
    RereadsExpression tokens (.boolean location value) := by
  refine ⟨lays_wellFormed.boolean location value trivial, fun spot view next hwrites _ _ ↦ ?_⟩
  unfold Expression.pieces at hwrites
  exact reaches_leaf [nameExpression, stringLiteral, integerLiteral, floatLiteral] rfl
    ⟨by rintro ⟨⟩, by rintro ⟨⟩, by rintro ⟨⟩, by rintro ⟨⟩, trivial⟩
    (.inr (.inr (.inr (.inr (.inl rfl))))) hwrites rfl fun _ hlocation ↦ ⟨rfl, hlocation⟩

/-- A character is read again. -/
theorem rereads_character (location : Location) (value : Char) :
    RereadsExpression tokens (.character location value) := by
  refine ⟨lays_wellFormed.character location value trivial, fun spot view next hwrites _ _ ↦ ?_⟩
  unfold Expression.pieces at hwrites
  exact reaches_leaf [nameExpression, stringLiteral, integerLiteral, floatLiteral,
    booleanLiteral] rfl
    ⟨by rintro ⟨⟩, by rintro ⟨⟩, by rintro ⟨⟩, by rintro ⟨⟩, by rintro ⟨⟩, trivial⟩
    (.inr (.inr (.inr (.inr (.inr rfl))))) hwrites rfl fun _ hlocation ↦ ⟨rfl, hlocation⟩

/-! ### Atoms -/

/-- The creation of an object is read again if its type is. -/
theorem rereads_create {location : Location} {type : TypeExpr} (h : type.WellFormed) :
    RereadsExpression tokens (.create location type) := by
  refine ⟨lays_wellFormed.create location type h, fun spot view next hwrites _ hopen ↦ ?_⟩
  unfold Expression.pieces at hwrites
  obtain ⟨middle, hnew, htype⟩ := writes_append.1 hwrites
  have hpassed := hnew.symbolSpace
  have hread : (reader tokens typeExpr).Yields tokens spot.column middle next
      (·.erase = type.erase) := rereads_type h htype hopen
  refine reachesAt_atom (yields_choice_of_refuses hpassed.ahead [doBlock] ⟨by rintro ⟨⟩, trivial⟩
    (((Step.yields_passed hpassed spot.column).seq (hread.commitAs _)).map ?_))
  rintro ⟨word, found⟩ ⟨hlocation, hfound⟩
  exact ⟨congrArg (Expression.create .nowhere) hfound, hlocation⟩

/-- A tuple is read again if its elements are. -/
theorem rereads_tuple {location : Location} {elements : List Expression} (hne : elements ≠ [])
    (h : ∀ element ∈ elements, RereadsExpression tokens element) :
    RereadsExpression tokens (.tuple location elements) := by
  refine ⟨lays_wellFormed.tuple location elements hne fun element hmem ↦ (h element hmem).lays,
    fun spot view next hwrites _ _ ↦ ?_⟩
  unfold Expression.pieces at hwrites
  rw [expressionPieces_eq] at hwrites
  have hview : view.ahead = .leftParen := (hwrites.head rfl).1
  have hcomma (view next : View) (hpassed : view.Passes .comma next) :
      (reader tokens (.token .comma)).Yields tokens spot.column view next fun _ ↦ True :=
    (Step.yields_passed hpassed spot.column).mono fun _ _ ↦ trivial
  have hread := yields_parenthesized (fun element hmem ↦ (h element hmem).laid)
    (fun element hmem ↦ (h element hmem).rereads rfl spot) hcomma
    (fun _ hclosing ↦ declines_rule (by rw [hclosing]; decide)) hne hwrites
  refine reachesAt_atom (yields_choice_of_refuses hview [doBlock, creation, message]
    ⟨by rintro ⟨⟩, by rintro ⟨⟩, by rintro ⟨⟩, trivial⟩ (hread.map ?_))
  rintro ⟨⟨opening, first⟩, others⟩ ⟨hlocation, hfound⟩
  refine ⟨?_, hlocation⟩
  change Expression.tuple .nowhere (eraseExpressions _) = .tuple .nowhere (eraseExpressions _)
  rw [eraseExpressions_eq, eraseExpressions_eq]
  exact congrArg _ hfound

/-- A list is read again if its elements are. -/
theorem rereads_list {location : Location} {elements : List Expression}
    (h : ∀ element ∈ elements, RereadsExpression tokens element) :
    RereadsExpression tokens (.list location elements) := by
  refine ⟨lays_wellFormed.list location elements trivial fun element hmem ↦ (h element hmem).lays,
    fun spot view next hwrites _ _ ↦ ?_⟩
  unfold Expression.pieces at hwrites
  rw [expressionPieces_eq] at hwrites
  have hview : view.ahead = .leftBracket := (hwrites.head rfl).1
  have hread := yields_bracketed (fun element hmem ↦ (h element hmem).laid)
    (fun element hmem ↦ (h element hmem).rereads rfl spot)
    (fun _ hclosing ↦ declines_rule (by rw [hclosing]; decide)) hwrites
  refine reachesAt_atom (yields_choice_of_refuses hview [doBlock, creation, message, tuple]
    ⟨by rintro ⟨⟩, by rintro ⟨⟩, by rintro ⟨⟩, by rintro ⟨⟩, trivial⟩ (hread.map ?_))
  rintro ⟨opening, found⟩ ⟨hlocation, hfound⟩
  refine ⟨?_, hlocation⟩
  change Expression.list .nowhere (eraseExpressions _) = .list .nowhere (eraseExpressions _)
  rw [eraseExpressions_eq, eraseExpressions_eq, hfound]

/-! ### Messages -/

private theorem rereads_argument {location : Location} {key : String} {value : Expression}
    (hkey : Named key) (h : RereadsExpression tokens value) (spot : Spot) :
    Rereads tokens argument Argument.pieces Argument.erase .rightBrace spot.column spot.level
      (.mk location key value) := by
  intro spot' view next hwrites hlevel hnext
  obtain ⟨behind, hinside, hvalue⟩ := writes_append.1 hwrites
  obtain ⟨middle, hword, hcolon⟩ := writes_append.1 hinside
  have hpassed := hcolon.symbolSpace
  have hread := h.rereads rfl spot hvalue hlevel hnext
  refine ((((yields_name hword spot.column).skip
    (Step.yields_passed hpassed spot.column).commit).seq hread.commit).map ?_)
  rintro ⟨⟨key, location⟩, found⟩ ⟨⟨rfl, -⟩, hfound⟩
  exact congrArg (Argument.mk .nowhere key) hfound

private theorem writes_arguments {arguments : List Argument}
    (h : Writes spot (if arguments.isEmpty then [] else .space :: commas (argumentPieces arguments))
      view next) :
    ∃ inside : Spot, inside.level = spot.level ∧
      Writes inside (commas (arguments.map Argument.pieces)) view next ∧
      spot.after (if arguments.isEmpty then [] else .space :: commas (argumentPieces arguments)) =
        inside.after (commas (arguments.map Argument.pieces)) := by
  rw [argumentPieces_eq] at h ⊢
  cases arguments with
  | nil => exact ⟨spot, rfl, h, rfl⟩
  | cons first rest =>
    obtain ⟨_, hspace, hitems⟩ := h
    cases hspace
    exact ⟨Piece.after spot .space, rfl, hitems, rfl⟩

/-- A message is read again if the values of its arguments are. -/
theorem rereads_message {location : Location} {header : String} {arguments : List Argument}
    (hheader : Named header)
    (h : ∀ location key value, .mk location key value ∈ arguments →
      Named key ∧ RereadsExpression tokens value) :
    RereadsExpression tokens (.message location header arguments) := by
  refine ⟨lays_wellFormed.message location header arguments hheader fun location key value hmem ↦
    ⟨(h location key value hmem).1, (h location key value hmem).2.lays⟩,
    fun spot view next hwrites _ _ ↦ ?_⟩
  unfold Expression.pieces at hwrites
  obtain ⟨behind, hinside, hclosing⟩ := writes_append.1 hwrites
  obtain ⟨middle, hhead, hitems⟩ := writes_append.1 hinside
  obtain ⟨first, hopening, hword⟩ := writes_append.1 hhead
  have hpassed := hopening.symbol
  have hbracket := Writes.symbol hclosing
  obtain ⟨inside, hlevel, hitems, hafter⟩ := writes_arguments hitems
  rw [Spot.after_append, hafter] at hclosing
  have hlaid : ∀ argument ∈ arguments, Laid argument.pieces := by
    rintro ⟨location, key, value⟩ hmem
    obtain ⟨hkey, hvalue⟩ := h location key value hmem
    exact ⟨lays_argument location hkey hvalue.lays, .identifier, rfl⟩
  have hended := not_ended_of_shut ((lays_identifier hheader).edge _) hword rfl
  have hread := yields_listed hlaid (fun ⟨location, key, value⟩ hmem ↦
      rereads_argument (h location key value hmem).1 (h location key value hmem).2 spot) hitems
      hlevel (separated_closing hlaid hended hitems hclosing) (by rw [hbracket.ahead]; decide)
    (declines_of_refuses hbracket.ahead (by rintro ⟨⟩))
  refine reachesAt_atom (yields_choice_of_refuses hpassed.ahead [doBlock, creation]
    ⟨by rintro ⟨⟩, by rintro ⟨⟩, trivial⟩ (((((Step.yields_passed hpassed spot.column).seq
      (yields_name hword spot.column).commit).seq hread).skip
        (Step.yields_passed hbracket spot.column).commit).map ?_))
  rintro ⟨⟨opening, name, _⟩, found⟩ ⟨⟨hlocation, rfl, -⟩, hfound⟩
  refine ⟨?_, hlocation⟩
  change Expression.message .nowhere name (eraseArguments _) =
    .message .nowhere name (eraseArguments _)
  rw [eraseArguments_eq, eraseArguments_eq, hfound]

/-! ### Operators and what chains -/

/-- A signed expression is read again if its operand is. -/
theorem rereads_unary {location : Location} {operator : UnaryOperator} {operand : Expression}
    (h : RereadsExpression tokens operand) :
    RereadsExpression tokens (.unary location operator operand) := by
  refine ⟨lays_wellFormed.unary location operator operand trivial h.lays,
    fun spot view next hwrites hnext hopen ↦ ?_⟩
  unfold Expression.pieces at hwrites
  rw [parenthesizedIf_loosest, operand.pieces_eq (by decide)] at hwrites
  obtain ⟨middle, hsign, hoperand⟩ := writes_append.1 hwrites
  have hpassed := hsign.symbol
  have hread :
      (reader tokens property).Yields tokens spot.column middle next (Copies operand) := by
    refine h.inPlace (show 10 ≤ 11 by decide) (fun hbare ↦ ?_) hoperand rfl hnext
      fun hbare hends ↦ ?_
    · exact Nat.le_of_not_lt (of_decide_eq_false hbare)
    · refine hopen (Bool.and_eq_true_iff.2 ⟨decide_eq_true ?_, hends⟩)
      exact Nat.le_of_not_lt (of_decide_eq_false hbare)
  have hsigned : (reader tokens (signed operator)).Yields tokens spot.column view next
      (Copies (.unary location operator operand)) := by
    refine ((Step.yields_passed hpassed spot.column).seq hread.commit).map ?_
    rintro ⟨sign, found⟩ ⟨hlocation, hfound⟩
    exact ⟨congrArg (Expression.unary .nowhere operator) hfound.1, hlocation⟩
  cases operator with
  | negate => exact reachesAt_unary (yields_choice [] (List.forall_mem_nil _) hsigned)
  | not =>
    exact reachesAt_unary (yields_choice_of_refuses hpassed.ahead [signed .negate]
      ⟨by rintro ⟨⟩, trivial⟩ hsigned)

/-- Behind an expression that shuts the line, the line goes on. -/
theorem RereadsExpression.not_ended (h : RereadsExpression tokens expression)
    (hrank : rank ≤ 11)
    (hwrites : Writes spot (parenthesizedIf expression.endsWithBlock
      (expression.pieces (rankInside expression.endsWithBlock rank))) view next) :
    next.ended = false := by
  obtain ⟨kind, hleads⟩ := expression.leads
  obtain ⟨kind, hleads, -⟩ := hleads.inPlace Expression.le_rank
  rw [← expression.guarded_eq hrank] at hleads
  exact not_ended_of_shut ((lays_shut h.lays hrank).edge spot) hwrites hleads.leading

/-- A property is read again if its root is. -/
theorem rereads_property {location : Location} {root : Expression} {value : String}
    (hname : Named value) (h : RereadsExpression tokens root) :
    RereadsExpression tokens (.property location root value) := by
  refine ⟨lays_wellFormed.property location root value hname h.lays,
    fun spot view next hwrites _ _ ↦ ?_⟩
  unfold Expression.pieces at hwrites
  rw [parenthesizedIf_loosest] at hwrites
  obtain ⟨behind, hinside, hvalue⟩ := writes_append.1 hwrites
  obtain ⟨middle, hroot, hperiod⟩ := writes_append.1 hinside
  have hpassed := Writes.symbol hperiod
  have hended := h.not_ended (by decide) hroot
  rw [root.guarded_eq (by decide)] at hroot
  have hreaches := h.reachesInPlace (show chainsAt 10 = true from rfl) (by decide)
    Expression.le_rank hroot rfl (View.follows_of_line hended (by rw [hpassed.ahead]; rfl) _)
    fun _ _ ↦ View.not_opensArguments (by rw [hpassed.ahead]; decide)
  refine Step.Reaches.then hreaches
    (((Step.yields_passed hpassed spot.column).sameLine hended).skipLeft
      (yields_name hvalue spot.column).commit) ?_ ?_
  · exact Nat.lt_of_le_of_lt hvalue.length_le hpassed.length_lt
  · rintro found ⟨name, location⟩ ⟨hfound, hlocation⟩ ⟨rfl, -⟩
    exact ⟨congrArg (Expression.property .nowhere · name) hfound, hlocation⟩

/-- Operators are told apart by their tokens. -/
theorem BinaryOperator.token_injective {operator other : BinaryOperator}
    (h : operator.token = other.token) : operator = other := by
  cases operator <;> cases other <;> first | rfl | cases h

/-- The sign of an operator is read as the operator, wherever it stands. -/
theorem yields_operatorOf {operator : BinaryOperator} {sign : Token} {rest : List Token}
    (hview : view.tokens = sign :: rest) (hkind : sign.kind = operator.token)
    (hended : view.ended = false) (indent : Nat) :
    (reader tokens (operatorOf operator.level)).Yields tokens indent view (.behind sign rest)
      (· = operator) := by
  obtain ⟨before, after, hsplit, hbefore⟩ :=
    List.eq_append_cons_of_mem ((operator.mem_operators_iff _).2 rfl)
  refine Step.Yields.sameLine ?_ hended
  rw [hsplit, List.map_append, List.map_cons]
  refine yields_choice _ (List.forall_mem_map.2 fun other hmem ↦ ?_)
    ((Step.yields_token hview hkind indent).map fun _ _ ↦ rfl)
  refine (Step.declines_token (fun htoken ↦ hbefore ?_) indent).map _
  have hahead : view.ahead = sign.kind := by rw [View.ahead, hview]
  rw [hahead, hkind] at htoken
  rwa [BinaryOperator.token_injective htoken]

private theorem yields_operatorOf_passed {operator : BinaryOperator}
    (h : view.Passes operator.token next)
    (hended : view.ended = false) (indent : Nat) :
    (reader tokens (operatorOf operator.level)).Yields tokens indent view next (· = operator) := by
  cases h with
  | mk hkind => exact yields_operatorOf rfl hkind hended indent

/-- An operation is read again if its operands are and no open type clashes with its sign. -/
theorem rereads_binary {location : Location} {operator : BinaryOperator} {left right : Expression}
    (hclear : (Expression.binary location operator left right).clashes = false)
    (hleft : RereadsExpression tokens left) (hright : RereadsExpression tokens right) :
    RereadsExpression tokens (.binary location operator left right) := by
  refine ⟨lays_wellFormed.binary location operator left right trivial hleft.lays hright.lays,
    fun spot view next hwrites hnext hopen ↦ ?_⟩
  have hrank : operator.leftRank ≤ 11 := Nat.le_trans operator.leftRank_le (by decide)
  have hrank' : operator.level.precedence + 1 ≤ 11 :=
    Nat.le_trans (Nat.succ_le_succ operator.precedence_le) (by decide)
  unfold Expression.pieces at hwrites
  rw [parenthesizedIf_loosest] at hwrites
  obtain ⟨behind, hinside, hsecond⟩ := writes_append.1 hwrites
  obtain ⟨middle, hfirst, hsign⟩ := writes_append.1 hinside
  have hpassed := hsign.spaceSymbolSpace
  have hended := hleft.not_ended hrank hfirst
  have hcolumn := ((lays_shut hleft.lays hrank).append
    (lays_spaceSymbolSpace operator.spelled_token)).column spot
  rw [left.guarded_eq hrank] at hfirst
  rw [right.pieces_eq hrank'] at hsecond
  have hfollows : middle.Follows (operator.level.precedence + 1) spot.column := by
    refine View.follows_of_line hended ?_ _
    rw [hpassed.ahead, operator.continuesAt_token]
    exact decide_eq_false (Nat.not_succ_le_self _)
  obtain ⟨kind, hleads⟩ := right.leads
  obtain ⟨kind, hleads, -⟩ := hleads.inPlace fun hbare ↦ Nat.le_of_not_lt (of_decide_eq_false hbare)
  have hkind : behind.ahead = kind := (hsecond.head hleads.leading).1
  have hopens (hbare : (left.endsWithBlock || decide (left.rank < operator.leftRank)) = false)
      (hends : left.endsOpen = true) : ¬middle.OpensArguments := by
    intro hopens
    obtain ⟨htoken, hbegins⟩ := hopens.passed hpassed
    obtain rfl : operator = .less := BinaryOperator.token_injective htoken
    have hle : decide (BinaryOperator.less.leftRank ≤ left.rank) = true :=
      decide_eq_true (Expression.le_rank hbare)
    rw [Expression.clashes, hle, hends, right.pieces_eq hrank', hleads.leading] at hclear
    rw [hkind] at hbegins
    exact absurd hbegins (Bool.eq_false_iff.1 hclear)
  have hoperand : (reader tokens (operandOf operator.level)).Yields tokens spot.column behind next
      (Copies right) := by
    rw [← place_operand]
    refine hright.inPlace hrank' (fun hbare ↦ Nat.le_of_not_lt (of_decide_eq_false hbare)) hsecond
      hcolumn hnext fun hbare hends ↦ hopen (Bool.and_eq_true_iff.2 ⟨decide_eq_true ?_, hends⟩)
    exact Nat.le_of_not_lt (of_decide_eq_false hbare)
  have hitem := (yields_operatorOf_passed hpassed hended spot.column).seq hoperand.commit
  have hjoin (first : Expression) (item : BinaryOperator × Expression) (hcopy : Copies left first)
      (hfound : item.1 = operator ∧ Copies right item.2) :
      Copies (.binary location operator left right) (applied first item.1 item.2) := by
    obtain ⟨rfl, hcopied⟩ := hfound
    exact hcopy.applied hcopied location item.1
  have hlt : next.tokens.length < middle.tokens.length :=
    Nat.lt_of_le_of_lt hsecond.length_le hpassed.length_lt
  cases hchains : operator.level.chains with
  | true =>
    rw [show operator.leftRank = operator.level.precedence from if_pos hchains] at hfirst hopens
    have hreaches := hleft.reachesInPlace ((chainsAt_precedence _).trans hchains)
      (Nat.lt_of_succ_le hrank') Expression.le_rank hfirst rfl hfollows hopens
    exact (reachesAt_precedence hchains).2
      (((reachesAt_precedence hchains).1 hreaches).then hitem hlt hjoin)
  | false =>
    rw [show operator.leftRank = operator.level.precedence + 1 from
      if_neg (by rw [hchains]; exact Bool.false_ne_true)] at hfirst hopens
    have hread : (reader tokens (operandOf operator.level)).Yields tokens spot.column view middle
        (Copies left) := by
      rw [← place_operand]
      exact hleft.inPlace hrank' Expression.le_rank hfirst rfl hfollows hopens
    refine (reachesAt_of_not_chainsAt ((chainsAt_precedence _).trans hchains)).2 ?_
    rw [place_precedence]
    exact yields_level_of_pair operator.level hchains hread hitem hjoin

/-- A message that is sent is read again if it and its receiver are. -/
theorem rereads_send {location : Location} {receiver sent : Expression}
    (hreceiver : RereadsExpression tokens receiver) (hsent : RereadsExpression tokens sent) :
    RereadsExpression tokens (.send location receiver sent) := by
  refine ⟨lays_wellFormed.send location receiver sent trivial hreceiver.lays hsent.lays,
    fun spot view next hwrites hnext hopen ↦ ?_⟩
  unfold Expression.pieces at hwrites
  rw [parenthesizedIf_loosest] at hwrites
  obtain ⟨middle, hfirst, _, hspace, hsecond⟩ := writes_append.1 hwrites
  cases hspace
  have hrank : Precedence.application.rank + 1 ≤ 11 := by decide
  have hended := hreceiver.not_ended (Nat.le_of_succ_le hrank) hfirst
  have hcolumn := (lays_shut hreceiver.lays (Nat.le_of_succ_le hrank)).column spot
  rw [receiver.guarded_eq (Nat.le_of_succ_le hrank)] at hfirst
  rw [sent.guarded_eq hrank] at hsecond
  obtain ⟨kind, hleads⟩ := sent.leads
  obtain ⟨kind, hleads, hminus⟩ := hleads.inPlace Expression.le_rank
  obtain ⟨hahead, hlt, -⟩ := hsecond.head hleads.leading
  have hsign : kind ≠ .minus := by
    intro hkind
    obtain ⟨hbare, hstarts⟩ := hminus hkind
    rw [hstarts] at hbare
    cases hbare
  have hbegins := hleads.begins
  have hfollows : middle.Follows 2 spot.column := by
    refine View.follows_of_line hended ?_ _
    rw [hahead]
    cases kind <;> first | rfl | (cases hbegins; done) | exact absurd rfl hsign
  have hreaches := hreceiver.reachesInPlace (show chainsAt 1 = true from rfl) (by decide)
    Expression.le_rank hfirst rfl hfollows fun _ _ ↦ View.not_opensArguments (by
      rw [hahead]
      rintro rfl
      cases hbegins)
  have hread : (reader tokens (.rule .xor)).Yields tokens spot.column middle next
    (Copies sent) := by
    refine hsent.inPlace hrank Expression.le_rank hsecond hcolumn hnext fun hbare hends ↦ hopen ?_
    have hlt : decide (Precedence.application.rank < sent.rank) = true :=
      decide_eq_true (Expression.le_rank hbare)
    rw [Bool.or_eq_false_iff] at hbare
    rw [Expression.endsOpen, hbare.1, hends, hlt]
    rfl
  exact Step.Reaches.then hreaches (hread.sameLine hended) hlt fun first item hcopy hfound ↦
    hcopy.send hfound location

end Grammar

end Offside
