import Offside.Proofs.Canonical.Tidiness
import Offside.Proofs.Grammar.Refusal
import Offside.Proofs.Tree.Erasure

/-!
# Reading canonical types, patterns and paths

What the grammar reads of the tokens that the pieces of a tree write, up to the locations: names,
lists of things with commas between them, types, patterns and paths. Behind each stands what
separates it from the rest of its line (`View.Separated`), or at least nothing that could go on with
it.
-/

namespace Offside

open Packrat Canonical Edge

/-- A comma or a closing sign comes next; it begins a line only in the column of the block. -/
structure Packrat.View.Separated (view : View) (closing : TokenKind) (column : Nat) : Prop where
  kind : view.ahead = .comma ∨ view.ahead = closing
  column : view.ended = true → view.column? = some column

namespace Grammar

variable {tokens : Array Token} {indent : Nat} {spot : Spot} {view next : View}
  {closing : TokenKind}

/-- A separator behind what ends a line only by beginning a fresh one. -/
theorem separated_of_writes {kind : TokenKind} {pieces : List Piece}
    (h : Writes spot pieces view next) (hleading : leading? pieces = some kind)
    (hkind : kind = .comma ∨ kind = closing) (hfresh : view.ended = true → spot.edge = .fresh) :
    view.Separated closing spot.column := by
  obtain ⟨hahead, -, hcolumn, -⟩ := h.head hleading
  exact ⟨hahead ▸ hkind, fun hended ↦ hcolumn (hfresh hended)⟩

/-! ### Names and literals -/

/-- A terminal is read as the value that it carries. -/
theorem yields_leaf {α : Type} {kind : TokenKind} {payload : Payload} {read : Payload → Option α}
    {value : α} (h : Writes spot [.terminal ⟨kind, payload⟩] view next)
    (hread : read payload = some value) (indent : Nat) :
    (reader tokens (.value kind read)).Yields tokens indent view next fun found ↦
      found.1 = value ∧ found.2.isGenerated = false := by
  obtain ⟨middle, hpiece, rfl⟩ := h
  cases hpiece with
  | @terminal _ ended token rest hwritten hlocation =>
    have hkind : token.kind = kind := congrArg Terminal.kind hwritten
    have hpayload : token.payload = payload := congrArg Terminal.payload hwritten
    refine (Step.yields_value rfl hkind (by rw [hpayload, hread]) indent).mono fun found hfound ↦ ?_
    rw [hfound]
    exact ⟨rfl, hlocation⟩

/-- A name is read as itself, at a place of a file. -/
theorem yields_name {value : String} (h : Writes spot (identifier value) view next) (indent : Nat) :
    (reader tokens name).Yields tokens indent view next fun found ↦
      found.1 = value ∧ found.2.isGenerated = false :=
  yields_leaf h (by rfl) indent

/-! ### Things with commas between them -/

private theorem commas_cons (first : List Piece) (rest : List (List Piece)) :
    commas (first :: rest) = first ++ rest.flatMap (symbolSpace .comma ++ ·) := by
  induction rest generalizing first with
  | nil => exact (List.append_nil first).symm
  | cons second rest ih =>
    change first ++ symbolSpace .comma ++ commas (second :: rest) = _
    rw [ih, List.flatMap_cons, List.append_assoc, List.append_assoc]

/-- Where pieces shut the line, no line has ended. -/
theorem not_ended_of_shut {pieces : List Piece} {kind : TokenKind}
    (hshut : (spot.after pieces).edge.Shut)
    (h : Writes spot pieces view next) (hleading : leading? pieces = some kind) :
    next.ended = false := by
  obtain ⟨-, -, -, hends⟩ := h.head hleading
  obtain ⟨last, hlast, hcloses⟩ := hshut
  rw [hlast] at hends
  refine hends.trans (decide_eq_false ?_)
  rintro rfl
  cases hcloses

/-- Where a line has ended behind pieces, a fresh one begins. -/
theorem fresh_of_ended {pieces : List Piece} {block : Bool} {kind : TokenKind}
    (hedge : (spot.after pieces).edge.Ended block) (h : Writes spot pieces view next)
    (hleading : leading? pieces = some kind) (hended : next.ended = true) :
    (spot.after pieces).edge = .fresh := by
  obtain hshut | ⟨-, hfresh⟩ := hedge
  · rw [not_ended_of_shut hshut h hleading] at hended
    cases hended
  · exact hfresh

section Commas

variable {α γ : Type} {item : Parser α} {write : α → List Piece} {strip : α → γ} {things : List α}
  {level : Nat}

/-- What is written for a thing is laid, and begins with a terminal. -/
structure Laid (pieces : List Piece) : Prop where
  lays : Lays Opens (Ended true) pieces
  leading : ∃ kind, leading? pieces = some kind

variable (tokens) in
/-- The parser reads what is written for the thing, up to what is stripped, before a separator. -/
def Rereads (item : Parser α) (write : α → List Piece) (strip : α → γ) (closing : TokenKind)
    (indent level : Nat) (thing : α) : Prop :=
  ∀ ⦃spot : Spot⦄ ⦃view next : View⦄, Writes spot (write thing) view next → spot.level = level →
    next.Separated closing spot.column →
    (reader tokens item).Yields tokens indent view next (strip · = strip thing)

/-- Behind a thing stands a separator, if one is written there. -/
theorem separated_behind {pieces more : List Piece} {kind : TokenKind} {last : View}
    (hlaid : Laid pieces) (h : Writes spot pieces view next)
    (hmore : Writes (spot.after pieces) more next last) (hleading : leading? more = some kind)
    (hkind : kind = .comma ∨ kind = closing) : next.Separated closing spot.column := by
  obtain ⟨first, hfirst⟩ := hlaid.leading
  rw [← hlaid.lays.column spot]
  exact separated_of_writes hmore hleading hkind fun hended ↦
    fresh_of_ended (hlaid.lays.edge spot) h hfirst hended

/-- Each of several things is read behind a comma. -/
theorem yields_moreItems (hlaid : ∀ thing ∈ things, Laid (write thing))
    (hitem : ∀ thing ∈ things, Rereads tokens item write strip closing indent level thing)
    (h : Writes spot ((things.map write).flatMap (symbolSpace .comma ++ ·)) view next)
    (hlevel : spot.level = level) (hnext : next.Separated closing spot.column)
    (hcomma : next.ahead ≠ .comma) :
    (reader tokens (.many ((Parser.token .comma).skipLeft item))).Yields tokens indent view next
      fun found ↦ found.map strip = things.map strip := by
  induction things generalizing spot view with
  | nil =>
    cases h
    refine (((Step.declines_token hcomma indent).seq _).map _).many.mono fun found hfound ↦ ?_
    rw [hfound]
  | cons thing things ih =>
    rw [List.forall_mem_cons] at hlaid hitem
    rw [List.map_cons, List.flatMap_cons, List.append_assoc, writes_append] at h
    obtain ⟨middle, hpassed, h⟩ := h
    obtain ⟨last, hthing, hmore⟩ := writes_append.1 h
    have hafter := hlaid.1.lays.level (spot.after (symbolSpace .comma))
    have hseparated : last.Separated closing (spot.after (symbolSpace .comma)).column := by
      cases things with
      | nil =>
        cases hmore
        exact hnext
      | cons second things => exact separated_behind hlaid.1 hthing hmore rfl (.inl rfl)
    have hread := hitem.1 hthing hlevel hseparated
    have hrest := ih hlaid.2 hitem.2 hmore (hafter.trans hlevel)
      (by unfold Spot.column at hnext ⊢; rwa [hafter])
    have hlt : last.tokens.length < view.tokens.length :=
      Nat.lt_of_le_of_lt hthing.length_le hpassed.symbolSpace.length_lt
    refine (((Step.yields_passed hpassed.symbolSpace indent).skipLeft hread).many_cons hlt
      hrest).mono ?_
    rintro _ ⟨first, rest, rfl, hfirst, hrest⟩
    rw [List.map_cons, List.map_cons, hfirst, hrest]

/-- Several things, each behind a comma but the first. -/
theorem yields_separated {again : Parser α} (hlaid : ∀ thing ∈ things, Laid (write thing))
    (hitem : ∀ thing ∈ things, Rereads tokens item write strip closing indent level thing)
    (hagain : ∀ thing ∈ things, Rereads tokens again write strip closing indent level thing)
    (h : Writes spot (commas (things.map write)) view next) (hlevel : spot.level = level)
    (hne : things ≠ []) (hnext : next.Separated closing spot.column)
    (hcomma : next.ahead ≠ .comma) :
    (reader tokens ((item.seq (.many ((Parser.token .comma).skipLeft again))).map
      fun (first, rest) ↦ first :: rest)).Yields tokens indent view next
        fun found ↦ found.map strip = things.map strip := by
  obtain ⟨thing, things, rfl⟩ := List.exists_cons_of_ne_nil hne
  rw [List.forall_mem_cons] at hlaid hitem hagain
  rw [List.map_cons, commas_cons, writes_append] at h
  obtain ⟨middle, hthing, hmore⟩ := h
  have hafter := hlaid.1.lays.level spot
  have hseparated : middle.Separated closing spot.column := by
    cases things with
    | nil =>
      cases hmore
      exact hnext
    | cons second things => exact separated_behind hlaid.1 hthing hmore rfl (.inl rfl)
  have hrest := yields_moreItems hlaid.2 hagain.2 hmore (hafter.trans hlevel)
    (by unfold Spot.column at hnext ⊢; rwa [hafter]) hcomma
  refine ((hitem.1 hthing hlevel hseparated).seq hrest).map ?_
  rintro ⟨first, rest⟩ ⟨hfirst, hrest⟩
  rw [List.map_cons, List.map_cons, hfirst, hrest]

/-- Things are read again as well if their failures are fatal. -/
theorem Rereads.commit {thing : α}
    (h : Rereads tokens item write strip closing indent level thing) :
    Rereads tokens item.commit write strip closing indent level thing :=
  fun _ _ _ hwrites hlevel hnext ↦ (h hwrites hlevel hnext).commit

/-- Any number of things between brackets. -/
theorem yields_listed (hlaid : ∀ thing ∈ things, Laid (write thing))
    (hitem : ∀ thing ∈ things, Rereads tokens item write strip closing indent level thing)
    (h : Writes spot (commas (things.map write)) view next) (hlevel : spot.level = level)
    (hnext : next.Separated closing spot.column) (hcomma : next.ahead ≠ .comma)
    (hdeclines : (reader tokens item).Declines tokens indent next) :
    (reader tokens (.optional (.commaSeparated item))).Yields tokens indent view next
      fun found ↦ (found.getD []).map strip = things.map strip := by
  by_cases hne : things = []
  · subst hne
    cases h
    refine ((hdeclines.seq _).map _).optional.mono fun found hfound ↦ ?_
    rw [hfound]
    rfl
  · refine (yields_separated hlaid hitem (fun thing hthing ↦ (hitem thing hthing).commit) h hlevel
      hne hnext hcomma).optional.mono ?_
    rintro _ ⟨found, rfl, hfound⟩
    exact hfound

private theorem laid_commas {items : List (List Piece)} (h : ∀ item ∈ items, Laid item)
    (hne : items ≠ []) :
    Laid (commas items) := by
  refine ⟨lays_commas (fun item hitem ↦ (h item hitem).lays) hne, ?_⟩
  obtain ⟨first, rest, rfl⟩ := List.exists_cons_of_ne_nil hne
  obtain ⟨kind, hkind⟩ := (h first List.mem_cons_self).leading
  exact ⟨kind, by rw [commas_cons]; exact leading?_append hkind _⟩

/-- A closing sign behind things with commas between them, of which the last may end with a
block. -/
theorem separated_closing {last : View} (hlaid : ∀ thing ∈ things, Laid (write thing))
    (hview : view.ended = false) (h : Writes spot (commas (things.map write)) view next)
    (hclosing : Writes (spot.after (commas (things.map write))) (symbol closing) next last) :
    next.Separated closing spot.column := by
  by_cases hnil : things = []
  · subst hnil
    cases h
    refine separated_of_writes hclosing rfl (.inr rfl) fun hended ↦ ?_
    rw [hview] at hended
    cases hended
  · have hlist : Laid (commas (things.map write)) :=
      laid_commas (List.forall_mem_map.2 hlaid) fun hmap ↦ hnil (List.map_eq_nil_iff.1 hmap)
    exact separated_behind hlist h hclosing rfl (.inr rfl)

/-- Things between square brackets. -/
theorem yields_bracketed (hlaid : ∀ thing ∈ things, Laid (write thing))
    (hitem : ∀ thing ∈ things,
      Rereads tokens item write strip .rightBracket indent spot.level thing)
    (hdeclines : ∀ view : View, view.ahead = .rightBracket →
      (reader tokens item).Declines tokens indent view)
    (h : Writes spot (bracketed (commas (things.map write))) view next) :
    (reader tokens (((Parser.token .leftBracket).seq (.optional (.commaSeparated item))).skip
      (.commit (.token .rightBracket)))).Yields tokens indent view next fun found ↦
        found.1.location.isGenerated = false ∧ (found.2.getD []).map strip = things.map strip := by
  obtain ⟨behind, h, hclosing⟩ := writes_append.1 h
  obtain ⟨inside, hopening, hthings⟩ := writes_append.1 h
  have hpassed := hopening.symbol
  have hbracket := Writes.symbol hclosing
  rw [Spot.after_append] at hclosing
  have hseparated := separated_closing hlaid (hpassed.ended (by decide)) hthings hclosing
  have hread := yields_listed hlaid hitem hthings rfl hseparated (by rw [hbracket.ahead]; decide)
    (hdeclines behind hbracket.ahead)
  exact ((Step.yields_passed hpassed indent).seq hread).skip
    (Step.yields_passed hbracket indent).commit

-- A comma stands behind the first of the things in a tuple, with or without a space.
private theorem tuple_pieces (write : α → List Piece) (first : α) (rest : List α) :
    ∃ sign, (sign = symbol .comma ∨ sign = symbolSpace .comma) ∧
      commas ((first :: rest).map write) ++ loneComma (first :: rest) =
        write first ++ (sign ++ commas (rest.map write)) := by
  cases rest with
  | nil => exact ⟨symbol .comma, .inl rfl, rfl⟩
  | cons second rest =>
    refine ⟨symbolSpace .comma, .inr rfl, ?_⟩
    change write first ++ symbolSpace .comma ++ commas ((second :: rest).map write) ++ [] = _
    rw [List.append_nil, List.append_assoc]

/-- Things between parentheses, with a comma behind the first; the comma may be committed. -/
theorem yields_parenthesized {comma : Parser Token} (hlaid : ∀ thing ∈ things, Laid (write thing))
    (hitem : ∀ thing ∈ things, Rereads tokens item write strip .rightParen indent spot.level thing)
    (hcomma : ∀ view next : View, view.Passes .comma next →
      (reader tokens comma).Yields tokens indent view next fun _ ↦ True)
    (hdeclines : ∀ view : View, view.ahead = .rightParen →
      (reader tokens item).Declines tokens indent view)
    (hne : things ≠ [])
    (h : Writes spot (parenthesized (commas (things.map write) ++ loneComma things)) view next) :
    (reader tokens ((((Parser.token .leftParen).seq item.commit).seq
      (comma.skipLeft (.optional (.commaSeparated item)))).skip
        (.commit (.token .rightParen)))).Yields tokens indent view next fun found ↦
          found.1.1.location.isGenerated = false ∧
            (found.1.2 :: found.2.getD []).map strip = things.map strip := by
  obtain ⟨first, rest, rfl⟩ := List.exists_cons_of_ne_nil hne
  obtain ⟨sign, hsign, hpieces⟩ := tuple_pieces write first rest
  rw [List.forall_mem_cons] at hlaid hitem
  obtain ⟨behind, h, hclosing⟩ := writes_append.1 h
  obtain ⟨inside, hopening, hthings⟩ := writes_append.1 h
  rw [Spot.after_append, hpieces, Spot.after_append, Spot.after_append] at hclosing
  rw [hpieces] at hthings
  obtain ⟨middle, hfirst, hmore⟩ := writes_append.1 hthings
  obtain ⟨last, hcommaSign, hrest⟩ := writes_append.1 hmore
  have hpassed : middle.Passes .comma last := by
    obtain rfl | rfl := hsign
    · exact Writes.symbol hcommaSign
    · exact Writes.symbolSpace hcommaSign
  have hafter (spot : Spot) : (spot.after sign).level = spot.level := by
    obtain rfl | rfl := hsign <;> rfl
  have hleading : leading? sign = some .comma := by
    obtain rfl | rfl := hsign <;> rfl
  have hlevel : (((spot.after (symbol .leftParen)).after (write first)).after sign).level =
      spot.level := (hafter _).trans (hlaid.1.lays.level _)
  have hbracket := Writes.symbol hclosing
  have hbehind : middle.Separated .rightParen (spot.after (symbol .leftParen)).column :=
    separated_behind hlaid.1 hfirst hcommaSign hleading (.inl rfl)
  have hseparated := separated_closing hlaid.2 (hpassed.ended (by decide)) hrest hclosing
  have hread := hitem.1 hfirst rfl hbehind
  have hothers := yields_listed hlaid.2 hitem.2 hrest hlevel hseparated
    (by rw [hbracket.ahead]; decide) (hdeclines behind hbracket.ahead)
  refine ((((Step.yields_passed (Writes.symbol hopening) indent).seq hread.commit).seq
    ((hcomma middle last hpassed).skipLeft hothers)).skip
      (Step.yields_passed hbracket indent).commit).mono ?_
  rintro ⟨⟨opening, found⟩, others⟩ ⟨⟨hlocation, hfound⟩, hothers⟩
  refine ⟨hlocation, ?_⟩
  rw [List.map_cons, List.map_cons, hothers]
  exact congrArg (· :: _) hfound

end Commas

end Grammar

/-! ### Types -/

private theorem eraseTypes_eq (types : List TypeExpr) : eraseTypes types =
    types.map TypeExpr.erase := by
  induction types with
  | nil => rfl
  | cons type rest ih => rw [eraseTypes, ih, List.map_cons]

private theorem typePieces_eq (types : List TypeExpr) : typePieces types =
    types.map TypeExpr.pieces := by
  induction types with
  | nil => rfl
  | cons type rest ih => rw [typePieces, ih, List.map_cons]

/-- The type ends with a name, so that an angle bracket behind it would open its arguments. -/
def TypeExpr.isOpen : TypeExpr → Bool
  | .named _ _ arguments => arguments.isEmpty
  | .variadic _ inner => inner.isOpen
  | _ => false

private theorem TypeExpr.leading (type : TypeExpr) : ∃ kind, leading? type.pieces = some kind := by
  cases type with
  | named _ _ arguments => cases arguments <;> exact ⟨_, rfl⟩
  | list | tuple | variadic => exact ⟨_, rfl⟩

private theorem TypeExpr.WellFormed.laid {type : TypeExpr} (h : type.WellFormed) :
    Grammar.Laid type.pieces := ⟨h.lays.mono fun _ hedge ↦ hedge.ended true, type.leading⟩

/-- Before the view stand an angle bracket and a token that may begin a type. -/
def Packrat.View.OpensArguments (view : View) : Prop :=
  view.ahead = .less ∧ Grammar.begins .typeExpression (View.ahead ⟨false, view.tokens.tail⟩) = true

/-- Only an angle bracket opens type arguments. -/
theorem Packrat.View.not_opensArguments {view : View} (h : view.ahead ≠ .less) :
    ¬view.OpensArguments :=
  fun hopens ↦ h hopens.1

/-- Where type arguments open, the sign that is passed is the angle bracket, and a type may begin
behind it. -/
theorem Packrat.View.OpensArguments.passed {view next : View} {kind : TokenKind}
    (h : view.OpensArguments) (hpassed : view.Passes kind next) :
    kind = .less ∧ Grammar.begins .typeExpression next.ahead = true := by
  refine ⟨hpassed.ahead.symm.trans h.1, ?_⟩
  cases hpassed with
  | mk => exact h.2

namespace Grammar

variable {tokens : Array Token} {spot : Spot} {view next : View}

variable (tokens) in
/-- Where no type arguments open, none are read. -/
theorem declines_typeArguments (h : ¬view.OpensArguments) (indent : Nat) :
    (reader tokens typeArguments).Declines tokens indent view := by
  by_cases hless : view.ahead = .less
  · obtain ⟨ended, _ | ⟨less, rest⟩⟩ := view
    · cases hless
    · have hitem : (reader tokens typeExpr).Declines tokens indent (.behind less rest) :=
        declines_rule (eq_false_of_ne_true fun hbegins ↦ h ⟨hless, hbegins⟩)
      exact ((Step.yields_token rfl hless indent).seq_declines ((hitem.seq _).map _) |>.map _).seq _
        |>.map _
  · exact ((((Step.declines_token hless indent).seq _).map _).seq _).map _

variable (tokens) in
/-- The type is read where it is written. -/
def RereadsType (type : TypeExpr) : Prop :=
  ∀ ⦃indent : Nat⦄ ⦃spot : Spot⦄ ⦃view next : View⦄, Writes spot type.pieces view next →
    (type.isOpen = true → ¬next.OpensArguments) →
      (reader tokens typeExpr).Yields tokens indent view next (·.erase = type.erase)

private theorem RereadsType.rereads {type : TypeExpr} {closing : TokenKind}
    (h : RereadsType tokens type)
    (hclosing : closing ≠ .less) (indent level : Nat) :
    Rereads tokens typeExpr TypeExpr.pieces TypeExpr.erase closing indent level type := by
  refine fun _ _ _ hwrites _ hnext ↦ h hwrites fun _ ↦ View.not_opensArguments ?_
  obtain hkind | hkind := hnext.kind
  · rw [hkind]
    decide
  · rwa [hkind]

private theorem yields_typeArguments {types : List TypeExpr} (indent : Nat)
    (hlaid : ∀ type ∈ types, Laid type.pieces) (htypes : ∀ type ∈ types, RereadsType tokens type)
    (hne : types ≠ [])
    (h : Writes spot (symbol .less ++ (commas (types.map TypeExpr.pieces) ++ symbol .greater)) view
      next) :
    (reader tokens typeArguments).Yields tokens indent view next fun found ↦
      found.map TypeExpr.erase = types.map TypeExpr.erase := by
  obtain ⟨inside, hopening, h⟩ := writes_append.1 h
  obtain ⟨behind, hthings, hclosing⟩ := writes_append.1 h
  have hbracket := Writes.symbol hclosing
  have hseparated := separated_closing hlaid ((Writes.symbol hopening).ended (by decide)) hthings
    hclosing
  have hitem (type : TypeExpr) (hmem : type ∈ types) : Rereads tokens typeExpr TypeExpr.pieces
      TypeExpr.erase .greater indent spot.level type :=
    (htypes type hmem).rereads (by decide) indent spot.level
  have hread := yields_separated hlaid hitem hitem hthings rfl hne hseparated
    (by rw [hbracket.ahead]; decide)
  exact ((Step.yields_passed (Writes.symbol hopening) indent).skipLeft hread).skip
    (Step.yields_passed hbracket indent)

mutual

/-- A type is read where it is written. -/
theorem rereads_type : {type : TypeExpr} → type.WellFormed → RereadsType tokens type
  | .named _ value [], _ => by
    intro indent spot view next hwrites hnext
    unfold TypeExpr.pieces at hwrites
    have harguments := declines_typeArguments tokens (hnext rfl) indent
    refine yields_rule (yields_choice_of_refuses rfl [] trivial
      (((yields_name hwrites indent).seq harguments.optional).map ?_))
    rintro ⟨⟨name, location⟩, arguments⟩ ⟨⟨rfl, -⟩, rfl⟩
    rfl
  | .named _ value (first :: rest), h => by
    intro indent spot view next hwrites _
    unfold TypeExpr.pieces at hwrites
    rw [List.append_assoc, List.append_assoc] at hwrites
    obtain ⟨middle, hname, harguments⟩ := writes_append.1 hwrites
    have hread := yields_typeArguments indent
      (fun type hmem ↦ (typesWellFormed_iff.1 h.2 type hmem).laid) (rereads_types h.2)
      (List.cons_ne_nil _ _) (by rwa [← typePieces_eq])
    refine yields_rule (yields_choice_of_refuses rfl [] trivial
      (((yields_name hname indent).seq hread.optional).map ?_))
    rintro ⟨⟨name, location⟩, _⟩ ⟨⟨rfl, -⟩, found, rfl, hfound⟩
    change TypeExpr.named .nowhere name (eraseTypes found) = .named .nowhere name (eraseTypes _)
    rw [eraseTypes_eq, eraseTypes_eq, hfound]
  | .list _ element, h => by
    intro indent spot view next hwrites _
    unfold TypeExpr.pieces at hwrites
    obtain ⟨behind, hinside, hclosing⟩ := writes_append.1 hwrites
    obtain ⟨inside, hopening, helement⟩ := writes_append.1 hinside
    have hpassed := Writes.symbol hopening
    have hbracket := Writes.symbol hclosing
    have hread : (reader tokens typeExpr).Yields tokens indent inside behind
        (·.erase = element.erase) :=
      rereads_type (show element.WellFormed from h) helement fun _ ↦
        View.not_opensArguments (by rw [hbracket.ahead]; decide)
    have hlist := ((Step.yields_passed hpassed indent).seq hread.commit).skip
      (Step.yields_passed hbracket indent).commit
    refine yields_rule (yields_choice_of_refuses hpassed.ahead [namedType]
      ⟨by rintro ⟨⟩, trivial⟩ (hlist.map ?_))
    rintro ⟨opening, found⟩ ⟨-, hfound⟩
    exact congrArg (TypeExpr.list .nowhere) hfound
  | .tuple _ elements, h => by
    intro indent spot view next hwrites _
    unfold TypeExpr.pieces at hwrites
    have hopening : view.ahead = .leftParen := (hwrites.head rfl).1
    rw [typePieces_eq] at hwrites
    have hcomma (view next : View) (hpassed : view.Passes .comma next) :
        (reader tokens (.commit (.token .comma))).Yields tokens indent view next fun _ ↦ True :=
      ((Step.yields_passed hpassed indent).mono fun _ _ ↦ trivial).commit
    have hread := yields_parenthesized (fun type hmem ↦ (typesWellFormed_iff.1 h.2 type hmem).laid)
      (fun type hmem ↦ (rereads_types h.2 type hmem).rereads (by decide) indent spot.level) hcomma
      (fun _ hview ↦ declines_rule (by rw [hview]; decide)) h.1 hwrites
    refine yields_rule (yields_choice_of_refuses hopening [namedType, listType]
      ⟨by rintro ⟨⟩, by rintro ⟨⟩, trivial⟩ (hread.map ?_))
    rintro ⟨⟨opening, found⟩, others⟩ ⟨-, hfound⟩
    change TypeExpr.tuple .nowhere (eraseTypes _) = .tuple .nowhere (eraseTypes _)
    rw [eraseTypes_eq, eraseTypes_eq]
    exact congrArg _ hfound
  | .variadic _ inner, h => by
    intro indent spot view next hwrites hnext
    unfold TypeExpr.pieces at hwrites
    obtain ⟨middle, hperiods, hinner⟩ := writes_append.1 hwrites
    have hpassed := Writes.symbol hperiods
    have hread : (reader tokens typeExpr).Yields tokens indent middle next
        (·.erase = inner.erase) := rereads_type (show inner.WellFormed from h) hinner hnext
    refine yields_rule (yields_choice_of_refuses hpassed.ahead [namedType, listType, tupleType]
      ⟨by rintro ⟨⟩, by rintro ⟨⟩, by rintro ⟨⟩, trivial⟩
      (((Step.yields_passed hpassed indent).seq hread.commit).map ?_))
    rintro ⟨periods, found⟩ ⟨-, hfound⟩
    exact congrArg (TypeExpr.variadic .nowhere) hfound

private theorem rereads_types : {types : List TypeExpr} → typesWellFormed types →
    ∀ type ∈ types, RereadsType tokens type
  | [], _ => List.forall_mem_nil _
  | _ :: _, h => List.forall_mem_cons.2 ⟨rereads_type h.1, rereads_types h.2⟩

end

end Grammar

/-! ### Patterns -/

private theorem erasePatterns_eq (patterns : List Pattern) :
    erasePatterns patterns = patterns.map Pattern.erase := by
  induction patterns with
  | nil => rfl
  | cons pattern rest ih => rw [erasePatterns, ih, List.map_cons]

private theorem patternPieces_eq (patterns : List Pattern) :
    patternPieces patterns = patterns.map Pattern.pieces := by
  induction patterns with
  | nil => rfl
  | cons pattern rest ih => rw [patternPieces, ih, List.map_cons]

private theorem Pattern.isVariadic_erase (pattern : Pattern) :
    pattern.erase.isVariadic = pattern.isVariadic := by
  cases pattern <;> rfl

private theorem Pattern.leading (pattern : Pattern) : ∃ kind, leading? pattern.pieces =
    some kind := by
  cases pattern with
  | _ => exact ⟨_, rfl⟩

private theorem Pattern.WellFormed.laid {pattern : Pattern} (h : pattern.WellFormed) :
    Grammar.Laid pattern.pieces := ⟨h.lays.mono fun _ hedge ↦ hedge.ended true, pattern.leading⟩

/-- A path begins with a name. -/
theorem Path.leading : (path : Path) → leading? path.pieces = some .identifier
  | .name .. => rfl
  | .property _ inner _ => leading?_append (leading?_append inner.leading _) _

namespace Grammar

variable {tokens : Array Token} {spot : Spot} {view next : View}

variable (tokens) in
/-- The pattern is read where it is written. -/
def RereadsPattern (pattern : Pattern) : Prop :=
  ∀ ⦃indent : Nat⦄ ⦃spot : Spot⦄ ⦃view next : View⦄, Writes spot pattern.pieces view next →
    begins .pattern next.ahead = false →
      (reader tokens Grammar.pattern).Yields tokens indent view next (·.erase = pattern.erase)

private theorem RereadsPattern.rereads {pattern : Pattern} {closing : TokenKind}
    (h : RereadsPattern tokens pattern) (hclosing : begins .pattern closing = false)
    (indent level : Nat) :
    Rereads tokens Grammar.pattern Pattern.pieces Pattern.erase closing indent level pattern := by
  refine fun _ _ _ hwrites _ hnext ↦ h hwrites ?_
  obtain hkind | hkind := hnext.kind
  · rw [hkind]
    decide
  · rwa [hkind]

private theorem withOneVariadic_eq {build : Location → List Pattern → Pattern} {opening : Location}
    {found patterns : List Pattern} (h : found.map Pattern.erase = patterns.map Pattern.erase)
    (hone : AtMostOneVariadic patterns) :
    withOneVariadic build opening found = .ok (build opening found) := by
  have hcount (patterns : List Pattern) : (patterns.filter Pattern.isVariadic).length =
      (patterns.map Pattern.erase).countP Pattern.isVariadic := by
    rw [List.countP_map, ← List.countP_eq_length_filter]
    exact List.countP_congr fun pattern _ ↦ by rw [Function.comp, pattern.isVariadic_erase]
  have hnone : (found.filter Pattern.isVariadic)[1]? = none := by
    rw [List.getElem?_eq_none_iff, hcount, h, ← hcount]
    exact hone
  rw [withOneVariadic, hnone]

mutual

/-- A pattern is read where it is written. -/
theorem rereads_pattern : {pattern : Pattern} → pattern.WellFormed → RereadsPattern tokens pattern
  | .name _ value, _ => by
    intro indent spot view next hwrites _
    unfold Pattern.pieces at hwrites
    refine yields_rule (Step.yields_onKind (hwrites.head rfl).1
      ((yields_name hwrites indent).map ?_))
    rintro ⟨name, location⟩ ⟨rfl, -⟩
    rfl
  | .ignored _, _ => by
    intro indent spot view next hwrites _
    unfold Pattern.pieces at hwrites
    have hpassed := Writes.symbol hwrites
    exact yields_rule (Step.yields_onKind hpassed.ahead ((Step.yields_passed hpassed indent).map
      fun _ _ ↦ rfl))
  | .list _ patterns, h => by
    intro indent spot view next hwrites _
    unfold Pattern.pieces at hwrites
    have hopening : view.ahead = .leftBracket := (hwrites.head rfl).1
    rw [patternPieces_eq] at hwrites
    have hread := yields_bracketed
      (fun pattern hmem ↦ (patternsWellFormed_iff.1 h.2 pattern hmem).laid)
      (fun pattern hmem ↦ (rereads_patterns h.2 pattern hmem).rereads (by decide) indent spot.level)
      (fun _ hview ↦ declines_rule (by rw [hview]; decide)) hwrites
    refine yields_rule (Step.yields_onKind hopening (hread.check ?_))
    rintro ⟨opening, found⟩ ⟨-, hfound⟩
    refine ⟨_, withOneVariadic_eq hfound h.1, ?_⟩
    change Pattern.list .nowhere (erasePatterns _) = .list .nowhere (erasePatterns _)
    rw [erasePatterns_eq, erasePatterns_eq, hfound]
  | .tuple _ patterns, h => by
    intro indent spot view next hwrites _
    unfold Pattern.pieces at hwrites
    have hopening : view.ahead = .leftParen := (hwrites.head rfl).1
    rw [patternPieces_eq] at hwrites
    have hcomma (view next : View) (hpassed : view.Passes .comma next) :
        (reader tokens (.token .comma)).Yields tokens indent view next fun _ ↦ True :=
      (Step.yields_passed hpassed indent).mono fun _ _ ↦ trivial
    have hread := yields_parenthesized
      (fun pattern hmem ↦ (patternsWellFormed_iff.1 h.2.2 pattern hmem).laid)
      (fun pattern hmem ↦
        (rereads_patterns h.2.2 pattern hmem).rereads (by decide) indent spot.level)
      hcomma (fun _ hview ↦ declines_rule (by rw [hview]; decide)) h.1 hwrites
    refine yields_rule (Step.yields_onKind hopening (hread.check ?_))
    rintro ⟨⟨opening, first⟩, others⟩ ⟨-, hfound⟩
    refine ⟨_, withOneVariadic_eq hfound h.2.1, ?_⟩
    change Pattern.tuple .nowhere (erasePatterns _) = .tuple .nowhere (erasePatterns _)
    rw [erasePatterns_eq, erasePatterns_eq]
    exact congrArg _ hfound
  | .variadic _ none, _ => by
    intro indent spot view next hwrites hnext
    unfold Pattern.pieces at hwrites
    have hpassed := Writes.symbol hwrites
    have hdeclines : (reader tokens Grammar.pattern).Declines tokens indent next :=
      declines_rule hnext
    refine yields_rule (Step.yields_onKind hpassed.ahead (((Step.yields_passed hpassed indent).seq
      hdeclines.optional).map ?_))
    rintro ⟨periods, _⟩ ⟨-, rfl⟩
    rfl
  | .variadic _ (some inner), h => by
    intro indent spot view next hwrites hnext
    unfold Pattern.pieces at hwrites
    obtain ⟨middle, hperiods, hinner⟩ := writes_append.1 hwrites
    have hpassed := Writes.symbol hperiods
    have hread : (reader tokens Grammar.pattern).Yields tokens indent middle next
        (·.erase = inner.erase) := rereads_pattern (show inner.WellFormed from h) hinner hnext
    refine yields_rule (Step.yields_onKind hpassed.ahead (((Step.yields_passed hpassed indent).seq
      hread.optional).map ?_))
    rintro ⟨periods, _⟩ ⟨-, found, rfl, hfound⟩
    exact congrArg (Pattern.variadic .nowhere ∘ some) hfound

private theorem rereads_patterns : {patterns : List Pattern} → patternsWellFormed patterns →
    ∀ pattern ∈ patterns, RereadsPattern tokens pattern
  | [], _ => List.forall_mem_nil _
  | _ :: _, h => List.forall_mem_cons.2 ⟨rereads_pattern h.1, rereads_patterns h.2⟩

end

/-! ### Paths -/

/-- A name behind a period. -/
theorem yields_periodName {value : String} (indent : Nat)
    (h : Writes spot (symbol .period ++ identifier value) view next) :
    (reader tokens ((Parser.token .period).skipLeft name.commit)).Yields tokens indent view next
      (·.1 = value) := by
  obtain ⟨middle, hperiod, hname⟩ := writes_append.1 h
  exact ((Step.yields_passed (Writes.symbol hperiod) indent).skipLeft
    (yields_name hname indent).commit).mono fun _ hfound ↦ hfound.1

/-- The path is the other one up to locations, and located in a file. -/
def CopiesPath (path : Path) (copy : Path) : Prop :=
  copy.erase = path.erase ∧ copy.location.isGenerated = false

private theorem reaches_path {indent : Nat} : {path : Path} → {next : View} →
    Writes spot path.pieces view next →
    Step.Reaches tokens (reader tokens anyPath)
      (reader tokens ((Parser.token .period).skipLeft name.commit))
      (fun inner item ↦ .property inner.location inner item.1) indent view next (CopiesPath path)
  | .name _ value, next, h => by
    intro last items hmany
    refine ((yields_name h indent).seq hmany).map ?_
    rintro ⟨⟨name, location⟩, rest⟩ ⟨⟨rfl, hlocation⟩, hitems⟩
    exact ⟨.name location name, rest, rfl, ⟨rfl, hlocation⟩, hitems⟩
  | .property _ inner value, next, h => by
    unfold Path.pieces at h
    rw [List.append_assoc] at h
    obtain ⟨middle, hinner, hproperty⟩ := writes_append.1 h
    refine (reaches_path hinner).then (yields_periodName indent hproperty)
      (hproperty.head rfl).2.1 ?_
    rintro found ⟨name, location⟩ hfound rfl
    exact ⟨congrArg (Path.property .nowhere · name) hfound.1, hfound.2⟩

/-- A path is read where it is written, if no period follows. -/
theorem yields_path {path : Path} (indent : Nat) (h : Writes spot path.pieces view next)
    (hnext : next.ahead ≠ .period) :
    (reader tokens Grammar.path).Yields tokens indent view next (CopiesPath path) :=
  yields_rule ((reaches_path h).yields
    ((((Step.declines_token hnext indent).seq _).map _)))

end Grammar

end Offside
