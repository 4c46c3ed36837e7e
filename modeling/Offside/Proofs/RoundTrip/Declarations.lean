import Offside.Proofs.Canonical.Rendering
import Offside.Proofs.RoundTrip.Statements
import Offside.Reading

/-!
# Reading canonical programs

Members and handlers take up lines of a struct, and structs are read one after the other. The text
of a well-formed program in which everything is clear is read as the program again, up to locations
(`ofSource_text`).
-/

namespace Offside

open Packrat Canonical Edge

/-- Every node of the bodies of the program meets the demands. -/
def Program.Meets (demands : Demands) (program : Program) : Prop :=
  ∀ struct ∈ program.structs, ∀ handler ∈ struct.handlers, handler.body.Meets demands

/-- A declared thing without its locations. -/
def StructItem.erase : StructItem → StructItem
  | member declared => .member declared.erase
  | handler declared => .handler declared.erase

/-- The pieces of a declared thing. -/
def StructItem.pieces : StructItem → List Piece
  | member declared => declared.pieces
  | handler declared => declared.pieces

/-- What a struct declares, in the order of its canonical source. -/
def Struct.items (struct : Struct) : List StructItem :=
  struct.members.map .member ++ struct.handlers.map .handler

private theorem Struct.pieces_eq (struct : Struct) : struct.pieces =
    symbolSpace .kwStruct ++ (identifier struct.name ++ (symbol .colon ++
      ([.newline, .indent] ++ struct.items.flatMap StructItem.pieces ++ [.dedent]))) := by
  unfold Struct.pieces Struct.items
  rw [List.flatMap_append, List.flatMap_map, List.flatMap_map]
  simp only [List.append_assoc, StructItem.pieces]

namespace Grammar

variable {tokens : Array Token} {spot : Spot} {view next : View} {column indent : Nat}

/-! ### Members and handlers -/

private theorem yields_annotated {type : TypeExpr} (htype : type.WellFormed)
    (hwrites : Writes spot (annotationPieces type) view next) (hnext : next.ahead ≠ .less)
    (indent : Nat) :
    ∃ middle,
      (reader tokens (.token .doubleColon)).Yields tokens indent view middle
        (·.location.isGenerated = false) ∧
      (reader tokens (typeExpr.commitAs (.stated "expected type"))).Yields tokens indent middle next
        (·.erase = type.erase) := by
  obtain ⟨middle, hcolons, htypePieces⟩ := writes_append.1 hwrites
  have hpassed := hcolons.spaceSymbolSpace
  exact ⟨middle, Step.yields_passed hpassed indent,
    (rereads_type htype htypePieces fun _ ↦ View.not_opensArguments hnext).commitAs _⟩

private theorem rereads_member {member : Member} (h : member.WellFormed) :
    RereadsLines tokens (.rule .structItem) StructItem.pieces StructItem.erase StructItem.location
      (.member member) := by
  refine ⟨h.lays, ⟨.identifier, rfl, rfl⟩, fun spot view next hwrites hspot hnext ↦ ?_⟩
  have hended : next.ended = true := by
    refine ended_of_fresh hwrites (show leading? _ = some .identifier from rfl) (h.lays.edge spot)
  obtain ⟨behind, hinside, _, hnewline, rfl⟩ := writes_append.1 hwrites
  obtain ⟨middle, hname, hannotated⟩ := writes_append.1 hinside
  cases hnewline with
  | newline hbreaks =>
    cases hbreaks with
    | @mk _ _ rest _ hkind hskips =>
      obtain ⟨second, hcolons, htype⟩ := yields_annotated h.2 hannotated
        (by rw [View.ahead_cons, hkind]; decide) spot.column
      have hmember : (reader tokens (.rule .memberDeclaration)).Yields tokens spot.column view
          ⟨true, rest⟩
          fun found ↦ found.erase = member.erase ∧ found.location.isGenerated = false := by
        refine yields_rule (((((yields_name hname spot.column).skip hcolons).seq htype).skip
          (Step.yields_lineEnd _ hkind spot.column).commit).map ?_)
        rintro ⟨⟨name, location⟩, type⟩ ⟨⟨rfl, hlocation⟩, htype⟩
        exact ⟨congrArg (Member.mk .nowhere _) htype, hlocation⟩
      refine Step.Yields.line (yields_rule (yields_choice [] (List.forall_mem_nil _)
        (hmember.map ?_))) hskips (hnext.block hended).lineEnd
      rintro found ⟨hfound, hlocation⟩
      exact ⟨congrArg StructItem.member hfound, hlocation⟩

private theorem rereads_parameter {parameter : Parameter} (h : parameter.WellFormed)
    (indent level : Nat) :
    Rereads tokens Grammar.parameter Parameter.pieces Parameter.erase .rightParen indent level
      parameter := by
  intro spot view next hwrites _ hnext
  obtain ⟨location, value, type⟩ := parameter
  obtain ⟨middle, hname, htype⟩ := writes_append.1 hwrites
  have hahead {kind : TokenKind} (hcomma : kind ≠ .comma) (hparen : kind ≠ .rightParen) :
      next.ahead ≠ kind := by
    obtain hkind | hkind := hnext.kind <;> rw [hkind]
    · exact hcomma.symm
    · exact hparen.symm
  cases type with
  | none =>
    cases htype
    have hcolons : (reader tokens (.token .doubleColon)).Declines tokens indent next :=
      Step.declines_token (hahead (by decide) (by decide)) indent
    refine ((yields_name hname indent).seq ((hcolons.seq _).map _).optional).map ?_
    rintro ⟨⟨name, location⟩, _⟩ ⟨⟨rfl, -⟩, rfl⟩
    rfl
  | some type =>
    obtain ⟨second, hcolons, htype⟩ := yields_annotated (h.2 type rfl) htype
      (hahead (by decide) (by decide)) indent
    refine ((yields_name hname indent).seq (hcolons.skipLeft htype).optional).map ?_
    rintro ⟨⟨name, location⟩, _⟩ ⟨⟨rfl, -⟩, found, rfl, hfound⟩
    exact congrArg (fun type ↦ Parameter.mk .nowhere name (some type)) hfound

private theorem yields_parameters {parameters : List Parameter}
    (h : ∀ parameter ∈ parameters, parameter.WellFormed)
    (hwrites : Writes spot (parenthesized (commas (parameters.map Parameter.pieces))) view next)
    (indent : Nat) :
    ∃ inside behind,
      (reader tokens (.token .leftParen)).Yields tokens indent view inside
        (·.location.isGenerated = false) ∧
      (reader tokens (.optional (.rule .parameters))).Yields tokens indent inside behind
        (fun found ↦ (found.getD []).map Parameter.erase = parameters.map Parameter.erase) ∧
      (reader tokens (.token .rightParen)).Yields tokens indent behind next
        (·.location.isGenerated = false) := by
  obtain ⟨behind, hinside, hclosing⟩ := writes_append.1 hwrites
  obtain ⟨inside, hopening, hitems⟩ := writes_append.1 hinside
  rw [Spot.after_append] at hclosing
  have hbracket := Writes.symbol hclosing
  refine ⟨inside, behind, Step.yields_passed hopening.symbol indent, ?_,
    Step.yields_passed hbracket indent⟩
  have hlaid : ∀ parameter ∈ parameters, Laid parameter.pieces := fun parameter hmem ↦
    ⟨(h parameter hmem).lays.mono fun _ hedge ↦ hedge.ended true, .identifier, rfl⟩
  by_cases hne : parameters = []
  · subst hne
    cases hitems
    have hbegins : begins .parameters behind.ahead = false := by
      rw [hbracket.ahead]
      rfl
    refine (declines_rule hbegins).optional.mono fun found hfound ↦ ?_
    rw [hfound]
    rfl
  · have hitem (parameter : Parameter) (hmem : parameter ∈ parameters) :
        Rereads tokens Grammar.parameter Parameter.pieces Parameter.erase .rightParen indent
          spot.level parameter := rereads_parameter (h parameter hmem) indent spot.level
    have hread : (reader tokens (.rule .parameters)).Yields tokens indent inside behind
        (fun found ↦ found.map Parameter.erase = parameters.map Parameter.erase) :=
      yields_rule (yields_separated hlaid hitem (fun parameter hmem ↦ (hitem parameter hmem).commit)
        hitems rfl hne (separated_closing hlaid (hopening.symbol.ended (by decide)) hitems hclosing)
        (by rw [hbracket.ahead]; decide))
    refine hread.optional.mono ?_
    rintro _ ⟨found, rfl, hfound⟩
    exact hfound

private theorem rereads_handler {handler : Handler} (h : handler.WellFormed)
    (hclear : handler.body.Meets clear) :
    RereadsLines tokens (.rule .structItem) StructItem.pieces StructItem.erase StructItem.location
      (.handler handler) := by
  have hbody := hclear.elim (rereads_clear tokens)
  refine ⟨h.lays, ⟨.identifier, rfl, rfl⟩, fun spot view next hwrites hspot hnext ↦ ?_⟩
  have hended : next.ended = true := by
    refine ended_of_fresh hwrites (show leading? _ = some .identifier from rfl) (h.lays.edge spot)
  have hdedents := hnext.block hended
  obtain ⟨last, hhead, hwritesBody⟩ := writes_append.1 hwrites
  obtain ⟨middle, hname, hparameters⟩ := writes_append.1 hhead
  have hparen := (hparameters.head rfl).1
  obtain ⟨inside, behind, hopening, hread, hclosing⟩ :=
    yields_parameters h.2.1 hparameters spot.column
  have hreadBody : (reader tokens Grammar.body).Yields tokens spot.column last next
      (·.erase = handler.body.erase) := by
    rw [← h.lays_head.column spot] at hdedents ⊢
    exact hbody.yields hwritesBody hdedents
  have hcolons : (reader tokens (.token .doubleColon)).Declines tokens spot.column middle :=
    Step.declines_token (by rw [hparen]; decide) spot.column
  have hmember : (reader tokens (.rule .memberDeclaration)).Declines tokens spot.column view :=
    declines_rule_of_production
      (((((((yields_name hname spot.column).seq_declines hcolons).map _).seq _).seq _).map _).map _)
  have hhandler : (reader tokens (.rule .handlerDeclaration)).Yields tokens spot.column view next
      fun found ↦ found.erase = handler.erase ∧ found.location.isGenerated = false := by
    refine yields_rule ((((((yields_name hname spot.column).skip hopening.commit).seq hread).skip
      hclosing.commit).seq hreadBody.commit).map ?_)
    rintro ⟨⟨⟨name, location⟩, parameters⟩, body⟩ ⟨⟨⟨rfl, hlocation⟩, hparameters⟩, hbody⟩
    refine ⟨?_, hlocation⟩
    change Handler.mk .nowhere _ ((parameters.getD []).map Parameter.erase) body.erase = _
    rw [hparameters, hbody]
    rfl
  refine Step.Yields.line (yields_rule (yields_choice
    [(Parser.rule .memberDeclaration).map StructItem.member] ?_ (hhandler.map ?_))) (.refl _)
    hdedents.lineEnd
  · simp only [List.forall_mem_cons]
    exact ⟨hmember.map _, List.forall_mem_nil _⟩
  · rintro found ⟨hfound, hlocation⟩
    exact ⟨congrArg StructItem.handler hfound, hlocation⟩

/-! ### Structs -/

private theorem membersOf_erase (items : List StructItem) :
    (membersOf items).map Member.erase = membersOf (items.map StructItem.erase) := by
  unfold membersOf
  induction items with
  | nil => rfl
  | cons item rest ih => cases item <;> simp [StructItem.erase, ih]

private theorem handlersOf_erase (items : List StructItem) :
    (handlersOf items).map Handler.erase = handlersOf (items.map StructItem.erase) := by
  unfold handlersOf
  induction items with
  | nil => rfl
  | cons item rest ih => cases item <;> simp [StructItem.erase, ih]

private theorem membersOf_items (struct : Struct) : membersOf struct.items = struct.members := by
  simp [membersOf, Struct.items]

private theorem handlersOf_items (struct : Struct) : handlersOf struct.items = struct.handlers := by
  simp [handlersOf, Struct.items]

private theorem rereads_items {struct : Struct} (h : struct.WellFormed)
    (hclear : ∀ handler ∈ struct.handlers, handler.body.Meets clear) :
    ∀ item ∈ struct.items, RereadsLines tokens (.rule .structItem) StructItem.pieces
      StructItem.erase StructItem.location item := by
  intro item hitem
  obtain hitem | hitem := List.mem_append.1 hitem
  · obtain ⟨member, hmem, rfl⟩ := List.mem_map.1 hitem
    exact rereads_member (h.2.2.1 member hmem)
  · obtain ⟨handler, hmem, rfl⟩ := List.mem_map.1 hitem
    exact rereads_handler (h.2.2.2 handler hmem) (hclear handler hmem)

private theorem yields_struct {struct : Struct} (h : struct.WellFormed)
    (hclear : ∀ handler ∈ struct.handlers, handler.body.Meets clear)
    (hwrites : Writes spot struct.pieces view next) (hnext : next.Dedents spot.column)
    (hindent : indent ≤ spot.column) :
    (reader tokens (.rule .structDeclaration)).Yields tokens indent view next
      (·.erase = struct.erase) := by
  have hitems : ∀ item ∈ struct.items, RereadsLines tokens (.rule .structItem) StructItem.pieces
      StructItem.erase StructItem.location item := rereads_items h hclear
  have hne : struct.items ≠ [] := by
    unfold Struct.items
    rw [ne_eq, List.append_eq_nil_iff, List.map_eq_nil_iff, List.map_eq_nil_iff]
    rintro ⟨hmembers, hhandlers⟩
    exact h.2.1.elim (· hmembers) (· hhandlers)
  rw [Struct.pieces_eq] at hwrites
  obtain ⟨behindWord, hword, hwrites⟩ := writes_append.1 hwrites
  obtain ⟨behindName, hname, hwrites⟩ := writes_append.1 hwrites
  obtain ⟨behindColon, hcolon, hlines⟩ := writes_append.1 hwrites
  obtain ⟨inside, hbreaks, hinside⟩ := writes_indented hlines
  have hinsideAhead : inside.ahead ≠ .endOfLine := by
    obtain ⟨first, rest, hcons⟩ := List.exists_cons_of_ne_nil hne
    rw [hcons] at hitems hinside
    obtain ⟨kind, hleading, hbegins⟩ := (List.forall_mem_cons.1 hitems).1.leading
    rw [(hinside.head (leading?_append hleading (rest.flatMap StructItem.pieces))).1]
    rintro rfl
    cases hbegins
  have hblock :
      (reader tokens (.block StructItem.location (.rule .structItem))).Yields tokens indent inside
        next (fun found ↦ found.map StructItem.erase = struct.items.map StructItem.erase) :=
    yields_block hitems hne hinside (.refl _) hindent hnext
  have hread : (reader tokens (.nonEmpty "member or handler declaration"
      ((Parser.block StructItem.location (.rule .structItem)).commitAs
        (.stated "expected indented struct body")))).Yields tokens indent inside next
      (fun found ↦ found.map StructItem.erase = struct.items.map StructItem.erase) := by
    refine (hblock.commitAs _).nonEmpty _ ?_
    rintro items hitems rfl
    exact hne (List.map_eq_nil_iff.1 hitems.symm)
  refine yields_rule (((((((Step.yields_passed hword.symbolSpace indent).seq
    (yields_name hname indent).commit).skip (Step.yields_passed hcolon.symbol indent).commit).skip
    (Step.yields_lineBreak hbreaks hinsideAhead indent).commit).seq hread.commit)).map ?_)
  rintro ⟨⟨word, name, location⟩, items⟩ ⟨⟨-, rfl, -⟩, hfound⟩
  change Struct.mk .nowhere _ ((membersOf items).map Member.erase)
    ((handlersOf items).map Handler.erase) = _
  rw [membersOf_erase, handlersOf_erase, hfound, ← membersOf_erase, ← handlersOf_erase,
    membersOf_items, handlersOf_items]
  rfl

/-! ### Programs -/

private theorem writes_structs {struct : Struct} {rest : List Struct}
    (h : struct.WellFormed) (hrest : ∀ other ∈ rest, other.WellFormed)
    (hwrites : Writes ⟨0, .fresh⟩
      (((struct :: rest).map Struct.pieces).intersperse [.newline]).flatten view next)
    (hnext : next.Dedents 1) :
    ∃ middle, Writes ⟨0, .fresh⟩ struct.pieces view middle ∧
      Writes ⟨0, .fresh⟩ ((rest.map Struct.pieces).intersperse [.newline]).flatten middle next ∧
      middle.Dedents 1 := by
  have hafter := (h.lays.lines ⟨0, .fresh⟩ rfl).2
  cases rest with
  | nil => exact ⟨next, by simpa using hwrites, rfl, hnext⟩
  | cons second rest =>
    simp only [List.map_cons, List.intersperse_cons_cons, List.flatten_cons] at hwrites
    obtain ⟨behind, hstruct, hrestWrites⟩ := writes_append.1 hwrites
    rw [hafter] at hrestWrites
    obtain ⟨middle, ⟨_, hnewline, rfl⟩, hothers⟩ := writes_append.1 hrestWrites
    cases hnewline with
    | newline hbreaks =>
      have hlt := (hstruct.head (show leading? struct.pieces = some .kwStruct from rfl)).2.1
      have hfresh : (Spot.after ⟨0, .fresh⟩ struct.pieces).edge = .fresh := by rw [hafter]
      refine ⟨middle, hstruct.absorb hlt hfresh hbreaks.skips, hothers, ?_⟩
      have hleading : leading? (((second :: rest).map Struct.pieces).intersperse
          [.newline]).flatten = some .kwStruct := by
        cases rest with
        | nil => rfl
        | cons third rest => rfl
      exact dedents_of_fresh hothers rfl hleading (by decide)

private theorem yields_structs {structs : List Struct} (h : ∀ struct ∈ structs, struct.WellFormed)
    (hclear : ∀ struct ∈ structs, ∀ handler ∈ struct.handlers, handler.body.Meets clear)
    (hwrites : Writes ⟨0, .fresh⟩ ((structs.map Struct.pieces).intersperse [.newline]).flatten view
      next) (hnext : next.Dedents 1) (hend : next.ahead = .endOfInput) :
    (reader tokens (.many ((Parser.rule .structDeclaration : Parser Struct).skip lineEnds))).Yields
      tokens 0 view next (fun found ↦ found.map Struct.erase = structs.map Struct.erase) := by
  induction structs generalizing view with
  | nil =>
    cases hwrites
    have hdeclines : (reader tokens (.rule .structDeclaration)).Declines tokens 0 next :=
      declines_rule (by rw [hend]; rfl)
    exact ((hdeclines.seq _).map _).many.mono
      fun found hfound ↦ congrArg (List.map Struct.erase) hfound
  | cons struct rest ih =>
    rw [List.forall_mem_cons] at h hclear
    obtain ⟨middle, hstruct, hrest, hmiddle⟩ := writes_structs h.1 h.2 hwrites hnext
    have hlt := (hstruct.head (show leading? struct.pieces = some .kwStruct from rfl)).2.1
    have hread : (reader tokens (.rule .structDeclaration)).Yields tokens 0 view middle
        (·.erase = struct.erase) := yields_struct h.1 hclear.1 hstruct hmiddle (Nat.zero_le _)
    refine ((hread.skip (Step.yields_lineEnds (.refl _) hmiddle.lineEnd 0)).many_cons hlt
      (ih h.2 hclear.2 hrest)).mono ?_
    rintro _ ⟨first, others, rfl, hfirst, hothers⟩
    change first.erase :: others.map Struct.erase = struct.erase :: rest.map Struct.erase
    rw [hothers]
    exact congrArg (· :: _) hfirst

end Grammar

open Grammar

-- The tokens that a well-formed program writes are read as the program again.
private theorem yields_program {program : Program} {tokens : List Token} {next : View}
    {last : Token}
    (h : program.WellFormed) (hclear : program.Meets clear)
    (hwrites : Writes ⟨0, .fresh⟩ program.pieces ⟨false, tokens⟩ next)
    (hnext : next.tokens = [last])
    (hlast : last.kind = .endOfInput) (hcolumn : last.location.column? = some 1) :
    (reader tokens.toArray (.rule .program)).Yields tokens.toArray 0 ⟨false, tokens⟩
      (.behind last []) (·.erase = program.erase) := by
  obtain ⟨ended, _⟩ := next
  cases hnext
  have hdedents : View.Dedents ⟨ended, [last]⟩ 1 := by
    refine ⟨by rw [View.ahead_cons, hlast]; decide, fun found hfound ↦ ?_⟩
    rw [View.column?_cons, hcolumn] at hfound
    cases hfound
    exact Nat.le_refl 1
  have hfirst : View.ahead ⟨false, tokens⟩ ≠ .endOfLine := by
    obtain ⟨location, structs⟩ := program
    cases structs with
    | nil =>
      cases hwrites
      exact hdedents.lineEnd
    | cons struct rest =>
      obtain ⟨middle, hstruct, -⟩ := writes_structs (h struct List.mem_cons_self)
        (fun other hother ↦ h other (List.mem_cons_of_mem _ hother)) hwrites hdedents
      rw [(hstruct.head (show leading? struct.pieces = some .kwStruct from rfl)).1]
      decide
  have hhere : ∃ token rest, tokens = token :: rest := by
    cases tokens with
    | nil =>
      have hle := hwrites.length_le
      cases hle
    | cons token rest => exact ⟨token, rest, rfl⟩
  obtain ⟨token, rest, rfl⟩ := hhere
  have hstructs : (reader (token :: rest).toArray (.many ((Parser.rule .structDeclaration :
      Parser Struct).skip lineEnds))).Yields (token :: rest).toArray 0 _ ⟨ended, [last]⟩ _ :=
    yields_structs h hclear hwrites hdedents hlast
  have hend : (reader (token :: rest).toArray (.token .endOfInput)).Yields (token :: rest).toArray 0
      ⟨ended, [last]⟩ (.behind last []) (· = last) := Step.yields_token rfl hlast 0
  refine yields_rule (((Step.yields_here rfl 0).seq
    (((Step.yields_lineEnds (.refl _) hfirst 0).skipLeft hstructs).skip hend.commit)).map ?_)
  rintro ⟨location, structs⟩ ⟨-, hfound⟩
  exact congrArg (Program.mk .nowhere) hfound

/-- The canonical source of a well-formed program in which everything is clear is read as the
program again, up to locations. -/
theorem Program.WellFormed.ofSource_text {program : Program} (h : program.WellFormed)
    (hclear : program.Meets clear) (file : String) (memoize : Bool) :
    ∃ found, Program.ofSource file program.text memoize = .ok found ∧
      found.erase = program.erase := by
  obtain ⟨tokens, next, last, hscan, hwrites, hnext, hlast, hcolumn⟩ :=
    @scan_renderFrom file _ _ .start h.tidy (fun _ ↦ rfl) false
  have hread := yields_program h hclear hwrites hnext hlast
    (hcolumn (by rw [(h.lays ⟨0, .fresh⟩ rfl).2]))
  obtain ⟨found, -, ⟨reached, hparse, -⟩, hfound, -⟩ := answers_of_yields hread memoize
  have htokens : Token.ofSource file program.text = .ok tokens := by
    unfold Token.ofSource Program.text
    rw [String.toList_ofList]
    exact hscan
  exact ⟨found, Program.ofSource_eq_ok.2 ⟨tokens, _, htokens, hparse⟩, hfound⟩

end Offside
