import Offside.Proofs.RoundTrip.Expressions
import Offside.Proofs.RoundTrip.Lines

/-!
# Reading canonical bodies and statements

A body is read where it is written, if what comes next stands in no deeper column than the enclosing
block (`RereadsBody`); a statement takes up lines (`RereadsStatement`). With them go the forms of
expressions that have bodies. What is clear is read again as a whole (`rereads_clear`).
-/

namespace Offside

open Packrat Canonical Edge

private theorem eraseStatements_eq (statements : List Statement) :
    eraseStatements statements = statements.map Statement.erase := by
  induction statements with
  | nil => rfl
  | cons statement rest ih => rw [eraseStatements, ih, List.map_cons]

private theorem eraseElseIfs_eq (alternatives : List ElseIf) :
    eraseElseIfs alternatives = alternatives.map ElseIf.erase := by
  induction alternatives with
  | nil => rfl
  | cons alternative rest ih => rw [eraseElseIfs, ih, List.map_cons]

private theorem Block.leading (body : Block) : leading? body.pieces = some .colon := by
  cases body
  rfl

namespace Grammar

variable {tokens : Array Token} {spot : Spot} {view next : View} {column : Nat}
  {expression : Expression} {body : Block}

variable (tokens) in
/-- The body is read where it is written, if what comes next is not as deep. -/
structure RereadsBody (body : Block) : Prop where
  lays : Lays (·.Admits .colon) (· = .fresh) body.pieces
  yields : ∀ ⦃spot : Spot⦄ ⦃view next : View⦄, Writes spot body.pieces view next →
    next.Dedents spot.column →
    (reader tokens Grammar.body).Yields tokens spot.column view next (·.erase = body.erase)

variable (tokens) in
/-- The statement is read where it is written, with the line ends behind it. -/
abbrev RereadsStatement (statement : Statement) : Prop :=
  RereadsLines tokens Grammar.statement Statement.pieces Statement.erase Statement.location
    statement

/-! ### Bodies -/

private theorem rereads_body {location : Location} {statements : List Statement}
    (hne : statements ≠ [])
    (h : ∀ statement ∈ statements, RereadsStatement tokens statement) :
    RereadsBody tokens (.mk location statements) := by
  refine ⟨lays_body location fun statement hmem ↦ (h statement hmem).lays,
    fun spot view next hwrites hnext ↦ ?_⟩
  unfold Block.pieces at hwrites
  rw [statementPieces_eq, List.append_assoc, List.append_assoc, ← List.append_assoc [_, _]]
    at hwrites
  obtain ⟨middle, hcolon, hlines⟩ := writes_append.1 hwrites
  obtain ⟨inside, hbreaks, hinside⟩ := writes_indented hlines
  cases hbreaks with
  | @mk _ _ rest _ hkind hskips =>
    have hblock := yields_block h hne hinside hskips (Nat.le_refl _) hnext
    have hread : (reader tokens statementBlock).Yields tokens spot.column ⟨true, rest⟩ next
        (fun found ↦ found.map Statement.erase = statements.map Statement.erase) := by
      refine yields_rule (hblock.nonEmpty "statement" ?_)
      rintro items hitems rfl
      exact hne (List.map_eq_nil_iff.1 hitems.symm)
    refine (((Step.yields_passed (Writes.symbol hcolon) spot.column).commit.skip
      (Step.yields_lineEnd _ hkind spot.column).commit).seq hread.commit).map ?_
    rintro ⟨colon, found⟩ ⟨-, hfound⟩
    change Block.mk .nowhere (eraseStatements found) = .mk .nowhere (eraseStatements statements)
    rw [eraseStatements_eq, eraseStatements_eq, hfound]

private theorem rereads_block (h : RereadsBody tokens body) :
    RereadsExpression tokens (.block body) := by
  refine ⟨lays_wellFormed.block body trivial h.lays, fun spot view next hwrites hnext _ ↦ ?_⟩
  unfold Expression.pieces at hwrites
  obtain ⟨middle, hword, hbody⟩ := writes_append.1 hwrites
  have hpassed := hword.symbol
  have hended : next.ended = true := ended_of_fresh hbody body.leading (h.lays.edge _)
  have hread := h.yields hbody (hnext.block hended)
  refine reachesAt_atom (yields_choice [] (List.forall_mem_nil _)
    (((Step.yields_passed hpassed spot.column).seq hread.commit).map ?_))
  rintro ⟨word, ⟨location, statements⟩⟩ ⟨hlocation, hfound⟩
  exact ⟨congrArg Expression.block hfound, hlocation⟩

/-- A condition and its body. -/
theorem yields_condition {condition : Expression} (hcondition : RereadsExpression tokens condition)
    (hbody : RereadsBody tokens body)
    (hwrites : Writes spot (parenthesizedIf condition.endsWithBlock
      (condition.pieces Precedence.loosest.rank) ++ body.pieces) view next)
    (hcolumn : spot.column = column) (hnext : next.Dedents column) :
    ∃ middle,
      (reader tokens Grammar.expression).Yields tokens column view middle (Copies condition) ∧
      (reader tokens Grammar.body).Yields tokens column middle next (·.erase = body.erase) := by
  subst hcolumn
  obtain ⟨middle, htest, hlast⟩ := writes_append.1 hwrites
  have hrank : Precedence.loosest.rank ≤ 11 := Nat.zero_le 11
  have hshut := lays_shut hcondition.lays hrank
  rw [← rankInside_loosest condition.endsWithBlock] at htest hlast
  have hended := hcondition.not_ended hrank htest
  have hcolumn := hshut.column spot
  have hcolon := (hlast.head body.leading).1
  rw [rankInside_loosest] at htest
  refine ⟨middle, hcondition.inPlace (show 0 ≤ 11 from hrank) (fun _ ↦ Nat.zero_le _) htest rfl
    (View.follows_of_line hended (by rw [hcolon]; rfl) _)
    fun _ _ ↦ View.not_opensArguments (by rw [hcolon]; decide), ?_⟩
  rw [← hcolumn] at hnext ⊢
  exact hbody.yields hlast hnext

/-! ### Conditionals -/

variable (tokens) in
private theorem yields_alignedElse (hpassed : view.Passes .kwElse next)
    (hcolumn : view.column? = some column) :
    (reader tokens alignedElse).Yields tokens column view next (·.location.isGenerated = false) :=
  (Step.yields_passed hpassed column).inBlockColumn hcolumn

variable (tokens) in
private theorem declines_alignedElse
    (h : view.ahead = .kwElse → view.column? ≠ some column) :
    (reader tokens alignedElse).Declines tokens column view :=
  Step.declines_inBlockColumn fun hcolumn ↦ Step.declines_token (fun helse ↦ h helse hcolumn) column

private theorem yields_otherwise {otherwise : Option Block}
    (h : ∀ last ∈ otherwise, RereadsBody tokens last) (hspot : spot.edge = .fresh)
    (hwrites : Writes spot (otherwisePieces otherwise) view next)
    (hnext : next.Dedents spot.column)
    (halternative : next.ahead = .kwElse → next.column? ≠ some spot.column) :
    (reader tokens (.optional (alignedElse.skipLeft Grammar.body.commit))).Yields tokens spot.column
        view next (fun found ↦ eraseOtherwise found = eraseOtherwise otherwise) ∧
      (reader tokens elseIf).Declines tokens spot.column view ∧ view.Dedents spot.column := by
  cases otherwise with
  | none =>
    cases hwrites
    have hdeclines := declines_alignedElse tokens halternative
    refine ⟨((hdeclines.seq _).map _).optional.mono fun _ hfound ↦ ?_,
      ((((hdeclines.seq _).map _).seq _).seq _).map _, hnext⟩
    rw [hfound]
  | some last =>
    have hdedents := dedents_of_fresh hwrites hspot rfl (by decide)
    obtain ⟨-, -, hplace, -⟩ := hwrites.head rfl
    obtain ⟨middle, hword, hbody⟩ := writes_append.1 hwrites
    have helse := yields_alignedElse tokens hword.symbol (hplace hspot)
    have hif : (reader tokens (.token .kwIf)).Declines tokens spot.column middle :=
      Step.declines_token (by rw [(hbody.head last.leading).1]; decide) spot.column
    have hread := (h last rfl).yields hbody hnext
    refine ⟨(helse.skipLeft hread.commit).optional.mono ?_,
      ((((helse.seq_declines hif).map _).seq _).seq _).map _, hdedents⟩
    rintro _ ⟨found, rfl, hfound⟩
    exact congrArg some hfound

private theorem yields_alternatives {alternatives : List ElseIf}
    (h : ∀ location test further, .mk location test further ∈ alternatives →
      RereadsExpression tokens test ∧ RereadsBody tokens further)
    (hspot : spot.edge = .fresh)
    (hwrites : Writes spot (alternatives.flatMap ElseIf.pieces) view next)
    (hnext : next.Dedents spot.column)
    (hdeclines : (reader tokens elseIf).Declines tokens spot.column next) :
    (reader tokens (.many elseIf)).Yields tokens spot.column view next
        (fun found ↦ found.map ElseIf.erase = alternatives.map ElseIf.erase) ∧
      view.Dedents spot.column := by
  induction alternatives generalizing view with
  | nil =>
    cases hwrites
    refine ⟨hdeclines.many.mono fun _ hfound ↦ ?_, hnext⟩
    rw [hfound]
  | cons alternative rest ih =>
    obtain ⟨location, test, further⟩ := alternative
    obtain ⟨htest, hbody⟩ := h location test further List.mem_cons_self
    rw [List.flatMap_cons] at hwrites
    have hdedents := dedents_of_fresh hwrites hspot rfl (by decide)
    obtain ⟨-, -, hplace, -⟩ := hwrites.head rfl
    obtain ⟨middle, hfirst, hrest⟩ := writes_append.1 hwrites
    rw [(laysLines_elseIf location htest.lays hbody.lays spot hspot).2] at hrest
    obtain ⟨hothers, hmiddle⟩ := ih
      (fun location test further hmem ↦ h location test further (List.mem_cons_of_mem _ hmem)) hrest
    have hlt := (hfirst.head rfl).2.1
    unfold ElseIf.pieces at hfirst
    rw [List.append_assoc] at hfirst
    obtain ⟨second, hwords, hcondition⟩ := writes_append.1 hfirst
    obtain ⟨first, hword, hif⟩ := writes_append.1 hwords
    obtain ⟨third, hread, hread'⟩ := yields_condition htest hbody hcondition rfl hmiddle
    have helse := yields_alignedElse tokens hword.symbolSpace (hplace hspot)
    have halternative : (reader tokens elseIf).Yields tokens spot.column view middle
        (·.erase = (ElseIf.mk location test further).erase) := by
      refine (((helse.skip (Step.yields_passed hif.symbolSpace spot.column)).seq hread.commit).seq
        hread'.commit).map ?_
      rintro ⟨⟨word, found⟩, found'⟩ ⟨⟨-, hfound, -⟩, hfound'⟩
      change ElseIf.mk .nowhere found.erase found'.erase = .mk .nowhere test.erase further.erase
      rw [hfound, hfound']
    refine ⟨(halternative.many_cons hlt hothers).mono ?_, hdedents⟩
    rintro _ ⟨first, others, rfl, hfirst, hothers⟩
    rw [List.map_cons, List.map_cons, hfirst, hothers]

private theorem rereads_conditional {location : Location} {condition : Expression} {body : Block}
    {alternatives : List ElseIf} {otherwise : Option Block}
    (hcondition : RereadsExpression tokens condition) (hbody : RereadsBody tokens body)
    (halternatives : ∀ location test further, .mk location test further ∈ alternatives →
      RereadsExpression tokens test ∧ RereadsBody tokens further)
    (hotherwise : ∀ last ∈ otherwise, RereadsBody tokens last) :
    RereadsExpression tokens (.conditional location condition body alternatives otherwise) := by
  refine ⟨lays_wellFormed.conditional location condition body alternatives otherwise trivial
    hcondition.lays hbody.lays (fun location test further hmem ↦
      ⟨(halternatives location test further hmem).1.lays,
        (halternatives location test further hmem).2.lays⟩)
    fun last hlast ↦ (hotherwise last hlast).lays, fun spot view next hwrites hnext _ ↦ ?_⟩
  unfold Expression.pieces at hwrites
  rw [parenthesizedIf_loosest, List.append_assoc (symbolSpace _), elseIfPieces_eq] at hwrites
  -- Behind the first body every line is a fresh one in the column of the conditional.
  have hword : Lays Opens Opens (symbolSpace .kwIf) :=
    (lays_symbolSpace (by decide)).behind fun _ hedge ↦ hedge _ rfl
  have htested := hword.append (lays_condition hcondition.lays hbody.lays)
  have hfurther : LaysLines (alternatives.flatMap ElseIf.pieces) :=
    laysLines_flatMap fun ⟨location, test, further⟩ hmem ↦ laysLines_elseIf location
      (halternatives location test further hmem).1.lays
      (halternatives location test further hmem).2.lays
  have hlast : LaysLines (otherwisePieces otherwise) :=
    laysLines_otherwise fun last hmem ↦ (hotherwise last hmem).lays
  have hedge := htested.edge spot
  have hcolumn := htested.column spot
  have hended : next.ended = true := by
    refine ended_of_fresh hwrites (show leading? _ = some .kwIf from rfl) ?_
    rw [Spot.after_append, Spot.after_append, (hfurther _ hedge).2, (hlast _ hedge).2, hedge]
  obtain ⟨third, hinside, hwritesLast⟩ := writes_append.1 hwrites
  obtain ⟨second, hinside, hwritesFurther⟩ := writes_append.1 hinside
  obtain ⟨first, hwritesWord, hwritesTest⟩ := writes_append.1 hinside
  rw [Spot.after_append, (hfurther _ hedge).2] at hwritesLast
  have hdedents := hnext.block hended
  have halternative := hnext.alternative hended
  rw [← hcolumn] at hdedents halternative
  obtain ⟨hreadLast, hdeclines, hdedents⟩ :=
    yields_otherwise hotherwise hedge hwritesLast hdedents halternative
  obtain ⟨hreadFurther, hdedents⟩ :=
    yields_alternatives halternatives hedge hwritesFurther hdedents hdeclines
  rw [hcolumn] at hreadLast hreadFurther hdedents
  obtain ⟨middle, hreadTest, hreadBody⟩ :=
    yields_condition hcondition hbody hwritesTest rfl hdedents
  have hread : (reader tokens (.rule .ifExpression)).Yields tokens spot.column view next
      (Copies (.conditional location condition body alternatives otherwise)) := by
    refine yields_rule (((((Step.yields_passed hwritesWord.symbolSpace spot.column).seq
      hreadTest.commit).seq hreadBody.commit).seq hreadFurther).seq hreadLast |>.map ?_)
    rintro ⟨⟨⟨⟨word, test⟩, body'⟩, further⟩, last⟩
      ⟨⟨⟨⟨hlocation, htest, -⟩, hbody⟩, hfurther⟩, hlast⟩
    refine ⟨?_, hlocation⟩
    change Expression.conditional .nowhere test.erase body'.erase (eraseElseIfs further)
      (eraseOtherwise last) = .conditional .nowhere condition.erase body.erase
        (eraseElseIfs alternatives) (eraseOtherwise otherwise)
    rw [eraseElseIfs_eq, eraseElseIfs_eq, htest, hbody, hfurther, hlast]
  exact reachesAt_expression (hread.orElse _)

/-! ### Statements -/

-- Behind an expression at the end of its statement, nothing goes on with it, and the statement is
-- ended by a line end or by the end of a block.
private theorem yields_value {value : Expression} (hvalue : RereadsExpression tokens value)
    (hwrites : Writes spot (value.pieces Precedence.loosest.rank ++ [.endLine]) view next)
    (hcolumn : spot.column = column) (hnext : next.Follows 0 column) :
    ∃ middle stop,
      (reader tokens Grammar.expression).Yields tokens column view middle (Copies value) ∧
      (reader tokens .endOfStatement).Yields tokens column middle stop (fun _ ↦ True) ∧
      stop.Skips next ∧ next.ahead ≠ .endOfLine := by
  obtain ⟨kind, hleads, -⟩ := value.leads
  have hended : next.ended = true := by
    refine ended_of_fresh hwrites (leading?_append hleads.leading _) ?_
    rw [Spot.after_append]
    rfl
  have hline := (hnext.block hended).lineEnd
  obtain ⟨middle, hread, _, hend, rfl⟩ := writes_append.1 hwrites
  have hedge := hvalue.lays.edge spot
  have hyields (hmiddle : middle.Follows 0 column)
      (hopens : value.endsOpen = true → ¬middle.OpensArguments) :
      (reader tokens Grammar.expression).Yields tokens column view middle (Copies value) :=
    hvalue.inPlace (show 0 ≤ 11 by decide) (fun _ ↦ Nat.zero_le _)
      (show Writes spot (parenthesizedIf false _) view middle from hread) hcolumn hmiddle
      fun _ ↦ hopens
  cases hend with
  | endLine hspot hbreaks =>
    obtain hshut | ⟨-, hfresh⟩ := hedge
    · have hmiddle := not_ended_of_shut hshut hread hleads.leading
      cases hbreaks with
      | mk hkind hskips =>
        refine ⟨_, _, hyields (View.follows_of_line hmiddle ?_ _)
          fun _ ↦ View.not_opensArguments ?_, Step.yields_endOfStatement _ hkind column, hskips,
          hline⟩
        · rw [View.ahead_cons, hkind]
          rfl
        · rw [View.ahead_cons, hkind]
          decide
    · exact absurd hfresh hspot
  | endLineFresh hfresh =>
    refine ⟨_, _, hyields hnext fun hopen ↦ ?_, Step.yields_endOfStatement_nil hline hended column,
      .refl _, hline⟩
    rw [value.endsWithBlock_of_endsOpen hopen] at hedge
    obtain ⟨kind, hkind, -⟩ := hedge.shut
    rw [hfresh] at hkind
    cases hkind

private theorem rereads_bind {location : Location} {pattern : Pattern} {value : Expression}
    (hpattern : pattern.WellFormed) (h : RereadsExpression tokens value) :
    RereadsStatement tokens (.bind location pattern value) := by
  refine ⟨lays_wellFormed.bind location pattern value hpattern h.lays, ⟨.kwLet, rfl, rfl⟩,
    fun spot view next hwrites hspot hnext ↦ ?_⟩
  unfold Statement.pieces at hwrites
  simp only [List.append_assoc] at hwrites
  obtain ⟨first, hword, hwrites⟩ := writes_append.1 hwrites
  obtain ⟨second, htarget, hwrites⟩ := writes_append.1 hwrites
  obtain ⟨third, hsign, hvalue⟩ := writes_append.1 hwrites
  have hpassed := hsign.spaceSymbolSpace
  have hcolumn := hpattern.lays.column (spot.after (symbolSpace .kwLet))
  obtain ⟨middle, stop, hread, hend, hskips, hline⟩ := yields_value h hvalue hcolumn hnext
  have hread' : (reader tokens Grammar.pattern).Yields tokens spot.column first second
      (·.erase = pattern.erase) :=
    rereads_pattern hpattern htarget (by rw [hpassed.ahead]; decide)
  refine Step.Yields.line (yields_rule (yields_choice [] (List.forall_mem_nil _)
    ((((((Step.yields_passed hword.symbolSpace spot.column).seq hread'.commit).skip
      (Step.yields_passed hpassed spot.column).commit).seq hread.commit).skip hend.commit).map ?_)))
    hskips hline
  rintro ⟨⟨word, target⟩, found⟩ ⟨⟨hlocation, htarget⟩, hfound⟩
  refine ⟨?_, hlocation⟩
  change Statement.bind .nowhere target.erase found.erase = .bind .nowhere pattern.erase value.erase
  rw [htarget, hfound.1]

private theorem rereads_assign {location : Location} {path : Path} {value : Expression}
    (hpath : path.WellFormed) (h : RereadsExpression tokens value) :
    RereadsStatement tokens (.assign location path value) := by
  refine ⟨lays_wellFormed.assign location path value hpath h.lays, ⟨.identifier, ?_, rfl⟩,
    fun spot view next hwrites hspot hnext ↦ ?_⟩
  · exact leading?_append (leading?_append (leading?_append path.leading _) _) _
  unfold Statement.pieces at hwrites
  simp only [List.append_assoc] at hwrites
  obtain ⟨second, htarget, hwrites⟩ := writes_append.1 hwrites
  obtain ⟨third, hsign, hvalue⟩ := writes_append.1 hwrites
  have hpassed := hsign.spaceSymbolSpace
  have hcolumn := hpath.lays.column spot
  obtain ⟨middle, stop, hread, hend, hskips, hline⟩ := yields_value h hvalue hcolumn hnext
  have hread' : (reader tokens Grammar.path).Yields tokens spot.column view second
      (CopiesPath path) := yields_path spot.column htarget (by rw [hpassed.ahead]; decide)
  have hview := (htarget.head path.leading).1
  refine Step.Yields.line (yields_rule (yields_choice_of_refuses hview [binding]
    ⟨by rintro ⟨⟩, trivial⟩ (((((hread'.skip (Step.yields_passed hpassed spot.column)).seq
      hread.commit).skip hend.commit).map ?_)))) hskips hline
  rintro ⟨target, found⟩ ⟨⟨htarget, hlocation⟩, hfound⟩
  refine ⟨?_, hlocation⟩
  change Statement.assign .nowhere target.erase found.erase = .assign .nowhere path.erase
    value.erase
  rw [htarget, hfound.1]

private theorem writes_behind_body {pieces : List Piece} {body : Block}
    (h : RereadsBody tokens body)
    (hwrites : Writes spot (pieces ++ body.pieces ++ [.endLine]) view next) :
    Writes spot (pieces ++ body.pieces) view next := by
  obtain ⟨middle, hinside, _, hend, rfl⟩ := writes_append.1 hwrites
  cases hend with
  | endLineFresh => exact hinside
  | endLine hspot =>
    rw [Spot.after_append] at hspot
    exact absurd (h.lays.edge _) hspot

private theorem rereads_forEach {location : Location} {pattern : Pattern} {iterable : Expression}
    {body : Block} (hpattern : pattern.WellFormed) (h : RereadsExpression tokens iterable)
    (hbody : RereadsBody tokens body) :
    RereadsStatement tokens (.forEach location pattern iterable body) := by
  refine ⟨lays_wellFormed.forEach location pattern iterable body hpattern h.lays hbody.lays,
    ⟨.kwFor, rfl, rfl⟩, fun spot view next hwrites hspot hnext ↦ ?_⟩
  unfold Statement.pieces at hwrites
  have hinside := writes_behind_body hbody hwrites
  have hended : next.ended = true := by
    refine ended_of_fresh hinside (show leading? _ = some .kwFor from rfl) ?_
    rw [Spot.after_append, hbody.lays.edge]
  have hdedents := hnext.block hended
  simp only [List.append_assoc] at hinside
  obtain ⟨first, hword, hinside⟩ := writes_append.1 hinside
  obtain ⟨second, htarget, hinside⟩ := writes_append.1 hinside
  obtain ⟨third, hsign, htest⟩ := writes_append.1 hinside
  have hpassed := hsign.spaceSymbolSpace
  have hcolumn := hpattern.lays.column (spot.after (symbolSpace .kwFor))
  obtain ⟨middle, hread, hreadBody⟩ := yields_condition h hbody htest hcolumn hdedents
  have hreadPattern : (reader tokens Grammar.pattern).Yields tokens spot.column first second
      (·.erase = pattern.erase) :=
    rereads_pattern hpattern htarget (by rw [hpassed.ahead]; decide)
  have hview := hword.symbolSpace.ahead
  have hbefore : ∀ other ∈ [binding, assignment],
      (reader tokens other).Declines tokens spot.column view := by
    simp only [List.forall_mem_cons]
    exact ⟨declines_of_refuses hview (by rintro ⟨⟩), declines_assignment (by rw [hview]; decide),
      List.forall_mem_nil _⟩
  refine Step.Yields.line (yields_rule (yields_choice [binding, assignment] hbefore
    ((((((Step.yields_passed hword.symbolSpace spot.column).seq hreadPattern.commit).skip
      (Step.yields_passed hpassed spot.column).commit).seq hread.commit).seq
        hreadBody.commit).map ?_))) (.refl _) hdedents.lineEnd
  rintro ⟨⟨⟨word, target⟩, found⟩, found'⟩ ⟨⟨⟨hlocation, htarget⟩, hfound⟩, hfound'⟩
  refine ⟨?_, hlocation⟩
  change Statement.forEach .nowhere target.erase found.erase found'.erase =
    .forEach .nowhere pattern.erase iterable.erase body.erase
  rw [htarget, hfound.1, hfound']

private theorem rereads_loop {location : Location} {condition : Expression} {body : Block}
    (h : RereadsExpression tokens condition) (hbody : RereadsBody tokens body) :
    RereadsStatement tokens (.loop location condition body) := by
  refine ⟨lays_wellFormed.loop location condition body trivial h.lays hbody.lays,
    ⟨.kwWhile, rfl, rfl⟩, fun spot view next hwrites hspot hnext ↦ ?_⟩
  unfold Statement.pieces at hwrites
  have hinside := writes_behind_body hbody hwrites
  have hended : next.ended = true := by
    refine ended_of_fresh hinside (show leading? _ = some .kwWhile from rfl) ?_
    rw [Spot.after_append, hbody.lays.edge]
  have hdedents := hnext.block hended
  rw [List.append_assoc] at hinside
  obtain ⟨first, hword, htest⟩ := writes_append.1 hinside
  obtain ⟨middle, hread, hreadBody⟩ := yields_condition h hbody htest rfl hdedents
  have hview := hword.symbolSpace.ahead
  have hbefore : ∀ other ∈ [binding, assignment, forEach],
      (reader tokens other).Declines tokens spot.column view := by
    simp only [List.forall_mem_cons]
    exact ⟨declines_of_refuses hview (by rintro ⟨⟩), declines_assignment (by rw [hview]; decide),
      declines_of_refuses hview (by rintro ⟨⟩), List.forall_mem_nil _⟩
  refine Step.Yields.line (yields_rule (yields_choice [binding, assignment, forEach] hbefore
    ((((Step.yields_passed hword.symbolSpace spot.column).seq hread.commit).seq
      hreadBody.commit).map ?_))) (.refl _) hdedents.lineEnd
  rintro ⟨⟨word, found⟩, found'⟩ ⟨⟨hlocation, hfound⟩, hfound'⟩
  refine ⟨?_, hlocation⟩
  change Statement.loop .nowhere found.erase found'.erase =
    .loop .nowhere condition.erase body.erase
  rw [hfound.1, hfound']

-- Behind the path that an expression begins with stands no assignment.
private theorem declines_assignment_of_writes {indent : Nat}
    (hwrites : Writes spot (expression.pieces Precedence.loosest.rank ++ [.endLine]) view next) :
    (reader tokens assignment).Declines tokens indent view := by
  obtain ⟨kind, hleads, -⟩ := expression.leads
  have hahead := (hwrites.head (leading?_append hleads.leading _)).1
  by_cases hview : view.ahead = .identifier
  · rw [hahead] at hview
    subst hview
    obtain ⟨path, more, hpieces, hmore⟩ := expression.begins_path hleads.leading
    rw [hpieces, List.append_assoc] at hwrites
    obtain ⟨middle, hpath, hbehind⟩ := writes_append.1 hwrites
    have hmiddle : middle.ahead ≠ .period ∧ middle.ahead ≠ .assign := by
      obtain rfl | ⟨kind, rest, rfl, hleading, hperiod, hassign⟩ := hmore
      · obtain ⟨_, hend, rfl⟩ := hbehind
        cases hend with
        | endLine _ hbreaks =>
          cases hbreaks with
          | mk hkind =>
            rw [View.ahead_cons, hkind]
            decide
        | endLineFresh hfresh =>
          cases path <;> simp [Path.pieces, symbol, identifier, Piece.after] at hfresh
      · obtain ⟨_, hspace, hrest⟩ := hbehind
        cases hspace
        rw [(hrest.head (leading?_append hleading _)).1]
        exact ⟨hperiod, hassign⟩
    have hread : (reader tokens Grammar.path).Yields tokens indent view middle (CopiesPath path) :=
      yields_path indent hpath hmiddle.1
    exact (((((hread.seq_declines (Step.declines_token hmiddle.2 indent)).map _).seq _).seq _).map
      _).map _
  · exact declines_assignment hview

private theorem rereads_expression {location : Location} (h : RereadsExpression tokens expression) :
    RereadsStatement tokens (.expression location expression) := by
  obtain ⟨kind, hleads, -⟩ := expression.leads
  refine ⟨lays_wellFormed.expression location expression trivial h.lays,
    ⟨kind, leading?_append hleads.leading _, ?_⟩, fun spot view next hwrites hspot hnext ↦ ?_⟩
  · have hbegins := hleads.begins
    cases kind <;> first | rfl | cases hbegins
  unfold Statement.pieces at hwrites
  obtain ⟨middle, stop, hread, hend, hskips, hline⟩ := yields_value h hwrites rfl hnext
  have hahead := (hwrites.head (leading?_append hleads.leading _)).1
  have hrefuses {parser : Parser Statement} (hparser : parser.Refuses (fun _ ↦ False) kind) :
      (reader tokens parser).Declines tokens spot.column view := declines_of_refuses hahead hparser
  have hkind {other : TokenKind} (hother : other.beginsAt 0 = false) : kind ≠ other := by
    rintro rfl
    rw [(hleads.mono (Nat.zero_le _)).begins] at hother
    cases hother
  have hbefore : ∀ other ∈ [binding, assignment, forEach, loop],
      (reader tokens other).Declines tokens spot.column view := by
    simp only [List.forall_mem_cons]
    exact ⟨hrefuses (hkind rfl), declines_assignment_of_writes hwrites, hrefuses (hkind rfl),
      hrefuses (hkind rfl), List.forall_mem_nil _⟩
  refine Step.Yields.line (yields_rule (yields_choice [binding, assignment, forEach, loop] hbefore
    ((hread.skip hend).map ?_))) hskips hline
  rintro found ⟨hfound, hlocation⟩
  exact ⟨congrArg (Statement.expression .nowhere) hfound, hlocation⟩

/-- Clear expressions, bodies and statements are read where they are written. -/
theorem rereads_clear (tokens : Array Token) :
    clear.Proof (RereadsExpression tokens) (RereadsBody tokens) (RereadsStatement tokens) where
  name _ _ h := rereads_name h.1
  string location value _ := rereads_string location value
  integer _ _ h := rereads_integer h.1
  float _ _ h := rereads_float h.1
  boolean location value _ := rereads_boolean location value
  character location value _ := rereads_character location value
  create _ _ h := rereads_create h.1
  tuple _ _ h ih := rereads_tuple h.1 ih
  list _ _ _ ih := rereads_list ih
  binary _ _ _ _ h hleft hright := rereads_binary h.2 hleft hright
  unary _ _ _ _ h := rereads_unary h
  property _ _ _ h ih := rereads_property h.1 ih
  message _ _ _ h ih := rereads_message h.1 fun location key value hmem ↦
    ⟨(ih location key value hmem).1.1, (ih location key value hmem).2⟩
  send _ _ _ _ hreceiver hsent := rereads_send hreceiver hsent
  block _ _ h := rereads_block h
  conditional _ _ _ _ _ _ hcondition hbody halternatives hotherwise :=
    rereads_conditional hcondition hbody halternatives hotherwise
  statements _ _ h ih := rereads_body h.1 ih
  bind _ _ _ h ih := rereads_bind h.1 ih
  assign _ _ _ h ih := rereads_assign h.1 ih
  forEach _ _ _ _ h hiterable hbody := rereads_forEach h.1 hiterable hbody
  loop _ _ _ _ hcondition hbody := rereads_loop hcondition hbody
  expression _ _ _ h := rereads_expression h

end Grammar

end Offside
