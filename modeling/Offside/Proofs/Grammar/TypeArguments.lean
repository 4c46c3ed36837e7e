import Offside.Proofs.Grammar.Predictive
import Offside.Proofs.Grammar.RowReading
import Offside.Proofs.Grammar.Soundness
import Offside.Proofs.RoundTrip.Places

/-!
# Type arguments

A type that a name begins takes the type arguments that stand behind the name. Where none do, the
name is the type, and a sign that would open arguments is left to compare what is created with what
is behind the sign (`Grammar.readsNamed_of_carrying`). Lists, tuples and variadic types commit at
their first token, though. Where one is due as an argument and turns out to be no type, its failure
is fatal for every type around it, and for the comparison too
(`Grammar.typeExpression_fatal_of_list`).
-/

namespace Offside.Grammar

open Packrat Offside.Derivation

variable {tokens : Array Token} {indent : Nat}

/-! ### Types are read -/

-- No type arguments begin with the tokens.
private def Unopened (rest : List Token) : Prop := View.ahead ⟨false, rest⟩ ≠ .less

variable (tokens indent) in
-- Types of rows up to a length are read, unless a sign that opens arguments comes next.
private abbrev ReadsTypes (bound : Nat) : Prop :=
  ReadsItems tokens indent typeExpr (fun row type ↦ IsType row type ∧ row.length ≤ bound) Unopened

private theorem yields_arguments {row : List Token} {arguments : List TypeExpr}
    {less greater : Token} (hitem : ReadsTypes tokens indent row.length) (hless : less.kind = .less)
    (h : Commas IsType row arguments) (hgreater : greater.kind = .greater) (ended : Bool)
    (rest : List Token) :
    (reader tokens typeArguments).Yields tokens indent ⟨ended, less :: (row ++ greater :: rest)⟩
      ⟨false, rest⟩ (· = arguments) := by
  have hnext : View.ahead ⟨false, greater :: rest⟩ = .greater := hgreater
  have hlist := yields_listing hitem hitem (h.within (Nat.le_refl _))
    (by rw [Unopened, hnext]; decide) (by rw [hnext]; decide) false
  exact ((yields_sign hless (by decide) ended _).skipLeft hlist).skip
    (yields_sign hgreater (by decide) false rest)

private theorem yields_plain {word : Token} {value : String} {rest : List Token}
    (hword : IsName word value) (hrest : Unopened rest) (ended : Bool) :
    (reader tokens namedType).Yields tokens indent ⟨ended, word :: rest⟩ ⟨false, rest⟩
      (· = .named word.location value []) := by
  have hnone : (reader tokens typeArguments).Declines tokens indent ⟨false, rest⟩ :=
    ((((Step.declines_token hrest indent).seq _).map _).seq _).map _
  refine ((yields_word hword ended rest).seq hnone.optional).map ?_
  rintro ⟨⟨_, _⟩, _⟩ ⟨heq, rfl⟩
  cases heq
  rfl

private theorem yields_generic {word less greater : Token} {value : String} {row : List Token}
    {arguments : List TypeExpr} (hitem : ReadsTypes tokens indent row.length)
    (hword : IsName word value) (hless : less.kind = .less) (h : Commas IsType row arguments)
    (hgreater : greater.kind = .greater) (ended : Bool) (rest : List Token) :
    (reader tokens namedType).Yields tokens indent
      ⟨ended, word :: less :: (row ++ greater :: rest)⟩ ⟨false, rest⟩
      (· = .named word.location value arguments) := by
  refine ((yields_word hword ended _).seq
    (yields_arguments hitem hless h hgreater false rest).optional).map ?_
  rintro ⟨⟨_, _⟩, _⟩ ⟨heq, _, rfl, rfl⟩
  cases heq
  rfl

private theorem yields_list {opening closing : Token} {row : List Token} {element : TypeExpr}
    (hitem : ReadsTypes tokens indent row.length) (hopening : opening.kind = .leftBracket)
    (h : IsType row element) (hclosing : closing.kind = .rightBracket) (ended : Bool)
    (rest : List Token) :
    (reader tokens listType).Yields tokens indent ⟨ended, opening :: (row ++ closing :: rest)⟩
      ⟨false, rest⟩ (· = .list opening.location element) := by
  have hnext : Unopened (closing :: rest) := by
    rw [Unopened, View.ahead_cons, hclosing]
    decide
  refine (((yields_sign hopening (by decide) ended _).seq
    (hitem.yields ⟨h, Nat.le_refl _⟩ hnext false).commit).skip
      (yields_sign hclosing (by decide) false rest).commit).map ?_
  rintro ⟨_, _⟩ ⟨rfl, rfl⟩
  rfl

private theorem yields_tuple {opening comma closing : Token} {head tail : List Token}
    {first : TypeExpr} {others : List TypeExpr}
    (hitem : ReadsTypes tokens indent (head.length + tail.length))
    (hopening : opening.kind = .leftParen) (hfirst : IsType head first)
    (hcomma : comma.kind = .comma) (h : Listed IsType tail others)
    (hclosing : closing.kind = .rightParen) (ended : Bool) (rest : List Token) :
    (reader tokens tupleType).Yields tokens indent
      ⟨ended, opening :: (head ++ comma :: (tail ++ closing :: rest))⟩
      ⟨false, rest⟩ (· = .tuple opening.location (first :: others)) := by
  have hnext : View.ahead ⟨false, closing :: rest⟩ = .rightParen := hclosing
  have hnone : (reader tokens typeExpr).Declines tokens indent ⟨false, closing :: rest⟩ :=
    declines_rule (by rw [hnext]; rfl)
  have hothers := yields_optionalListing hitem (h.within (Nat.le_add_left _ head.length))
    (by rw [Unopened, hnext]; decide) (by rw [hnext]; decide) hnone
  refine ((((yields_sign hopening (by decide) ended _).seq
    (hitem.yields ⟨hfirst, Nat.le_add_right _ _⟩ (hitem.stops_comma _ hcomma) false).commit).seq
      ((yields_sign hcomma (by decide) false _).commit.skipLeft hothers)).skip
        (yields_sign hclosing (by decide) false rest).commit).map ?_
  rintro ⟨⟨_, _⟩, _⟩ ⟨⟨rfl, rfl⟩, rfl⟩
  rfl

private theorem yields_variadic {periods : Token} {row : List Token} {inner : TypeExpr}
    (hitem : ReadsTypes tokens indent row.length) (hperiods : periods.kind = .doublePeriod)
    (h : IsType row inner) {rest : List Token} (hrest : Unopened rest) (ended : Bool) :
    (reader tokens variadicType).Yields tokens indent ⟨ended, periods :: (row ++ rest)⟩
      ⟨false, rest⟩ (· = .variadic periods.location inner) := by
  refine ((yields_sign hperiods (by decide) ended _).seq
    (hitem.yields ⟨h, Nat.le_refl _⟩ hrest false).commit).map ?_
  rintro ⟨_, _⟩ ⟨rfl, rfl⟩
  rfl

/-- A row that is derived as a type is read as it. -/
theorem yields_type {row rest : List Token} {type : TypeExpr} (h : IsType row type)
    (hrest : View.ahead ⟨false, rest⟩ ≠ .less) (ended : Bool) :
    (reader tokens typeExpr).Yields tokens indent ⟨ended, row ++ rest⟩ ⟨false, rest⟩
      (· = type) := by
  induction hlength : row.length using Nat.strongRecOn generalizing row rest type ended with
  | ind n ih =>
    have hitem (bound : Nat) (hbound : bound < n) : ReadsTypes tokens indent bound :=
      ⟨fun rest hcomma ↦ by rw [Unopened, View.ahead_cons, hcomma]; decide,
        fun h rest hrest ended ↦ ih _ (Nat.lt_of_le_of_lt h.2 hbound) h.1 hrest ended rfl⟩
    apply yields_rule
    cases h with
    | plain hword =>
      exact yields_choice_of_refuses (View.ahead_of_kind hword.kind _ _) [] trivial
        (yields_plain hword hrest ended)
    | @generic word less greater value row arguments hword hless harguments hgreater =>
      simp only [List.length_cons, List.length_append, List.length_nil] at hlength
      have hread := yields_generic (hitem row.length (by omega)) hword hless harguments
        hgreater ended rest
      simp only [List.cons_append, List.append_assoc, List.nil_append]
      exact yields_choice_of_refuses (View.ahead_of_kind hword.kind _ _) [] trivial hread
    | @list opening closing row element hopening helement hclosing =>
      simp only [List.length_cons, List.length_append, List.length_nil] at hlength
      have hread := yields_list (hitem row.length (by omega)) hopening helement hclosing
        ended rest
      simp only [List.cons_append, List.append_assoc, List.nil_append]
      exact yields_choice_of_refuses (View.ahead_of_kind hopening _ _) [namedType]
        ⟨by rintro ⟨⟩, trivial⟩ hread
    | @tuple opening comma closing head tail first others hopening hfirst hcomma hothers hclosing =>
      simp only [List.length_cons, List.length_append, List.length_nil] at hlength
      have hread := yields_tuple (hitem (head.length + tail.length) (by omega)) hopening
        hfirst hcomma hothers hclosing ended rest
      simp only [List.cons_append, List.append_assoc, List.nil_append]
      exact yields_choice_of_refuses (View.ahead_of_kind hopening _ _) [namedType, listType]
        ⟨by rintro ⟨⟩, by rintro ⟨⟩, trivial⟩ hread
    | @variadic periods row inner hperiods hinner =>
      rw [List.length_cons] at hlength
      have hread := yields_variadic (hitem row.length (by omega)) hperiods hinner hrest
        ended
      exact yields_choice_of_refuses (View.ahead_of_kind hperiods _ _)
        [namedType, listType, tupleType] ⟨by rintro ⟨⟩, by rintro ⟨⟩, by rintro ⟨⟩, trivial⟩ hread

/-! ### Where an argument is due -/

/-- The tokens behind a name up to where a type argument is due, of the name itself or of one in its
arguments. -/
inductive Due : List Token → Prop where
  | argument {less : Token} {front : List Token} {types : List TypeExpr} :
      less.kind = .less → Fronts IsType front types → Due (less :: front)
  | nested {less word : Token} {front row : List Token} {types : List TypeExpr} {name : String} :
      less.kind = .less → Fronts IsType front types → IsName word name → Due row →
        Due (less :: (front ++ word :: row))

private theorem readsItems_typeExpr :
    ReadsItems tokens indent typeExpr IsType fun rest ↦ View.ahead ⟨false, rest⟩ ≠ .less :=
  ⟨fun rest hcomma ↦ by rw [View.ahead_cons, hcomma]; decide,
    fun h _ hrest ended ↦ yields_type h hrest ended⟩

section Aborts

variable {claim : Failure → Prop} {front later : List Token} {types : List TypeExpr}

private theorem aborts_argument {word less : Token} {value : String} (hword : IsName word value)
    (hless : less.kind = .less) (hfront : Fronts IsType front types)
    (h : (reader tokens typeExpr).Aborts tokens indent ⟨false, later⟩ claim) (ended : Bool) :
    (reader tokens typeExpr).Aborts tokens indent ⟨ended, word :: less :: (front ++ later)⟩
      claim := by
  have hlist := aborts_listing readsItems_typeExpr readsItems_typeExpr hfront (fun _ ↦ h) h
  have harguments : (reader tokens typeArguments).Aborts tokens indent
      ⟨false, less :: (front ++ later)⟩ claim :=
    ((((yields_sign hless (by decide) false _).seq_aborts hlist).map _).seq _).map _
  exact aborts_rule ((((yields_word hword ended _).seq_aborts harguments.optional).map _).orElse _)

private theorem aborts_of_due {word : Token} {value : String} (hword : IsName word value)
    {row : List Token} (hrow : Due row)
    (h : (reader tokens typeExpr).Aborts tokens indent ⟨false, later⟩ claim) (ended : Bool) :
    (reader tokens typeExpr).Aborts tokens indent ⟨ended, word :: (row ++ later)⟩ claim := by
  induction hrow generalizing word value ended with
  | argument hless hfront => exact aborts_argument hword hless hfront h ended
  | nested hless hfront hinner _ ih =>
    rw [List.cons_append, List.append_assoc, List.cons_append]
    exact aborts_argument hword hless hfront (ih hinner false) ended

end Aborts

section Origin

variable {s : State} {failure : Failure}

variable (tokens) in
-- Types abort with the failure from the position on.
private def AbortsAt (s : State) (failure : Failure) (position : Nat) : Prop :=
  ∃ s', reader tokens typeExpr ⟨tokens, false⟩ (s.moveTo position) = .ok (.fatal failure, s')

private theorem sign_of_ok {p : Nat} {kind : TokenKind} {found : Token} {m : State}
    (hkind : kind ≠ .endOfInput)
    (h : Step.token kind ⟨tokens, false⟩ (s.moveTo p) = .ok (.ok found, m)) :
    found.kind = kind ∧ tokens.toList.drop p = found :: tokens.toList.drop (p + 1) ∧
      p < tokens.size ∧ m = s.moveTo (p + 1) := by
  obtain ⟨hfound, rfl, rfl⟩ := Step.token_eq_ok.1 h
  rw [State.position_moveTo] at hfound ⊢
  have hlt : p < tokens.size := Input.lt_size_of_kind ⟨tokens, false⟩ (hfound ▸ hkind)
  have hlist : p < tokens.toList.length := by simpa using hlt
  refine ⟨hfound, ?_, hlt, ?_⟩
  · rw [List.drop_eq_getElem_cons hlist]
    simp [Input.tokenAt, hlt]
  · simp only [Input.after, if_pos hlt]
    rfl

private theorem type_of_ok {p : Nat} {found : TypeExpr} {m : State} (hp : p ≤ tokens.size)
    (h : reader tokens typeExpr ⟨tokens, false⟩ (s.moveTo p) = .ok (.ok found, m)) :
    ∃ row, IsType row found ∧ tokens.toList.drop p = row ++ tokens.toList.drop (p + row.length) ∧
      p + row.length ≤ tokens.size ∧ m = s.moveTo (p + row.length) := by
  have hbuilds : Builds ⟨tokens, false⟩ _ .typeExpression p m.position found :=
    call_induction tokens builds_of_accepts h
  have htype : IsType _ found := (hbuilds.formed (by simp [sure]) hp).derives
  obtain ⟨hle, hsize⟩ := hbuilds.moves.within
  have hstop : m.position ≤ tokens.size := by
    simp only [Nat.max_eq_right hp] at hsize
    exact hsize
  have hmove : m = (s.moveTo p).moveTo m.position :=
    (call_agrees_self tokens _ .typeExpression).moveTo_eq h
  have hlength : p + (Input.segment ⟨tokens, false⟩ p m.position).length = m.position := by
    simp only [Input.segment, List.length_take, List.length_drop, Array.length_toList]
    omega
  have hdrop : tokens.toList.drop p =
      Input.segment ⟨tokens, false⟩ p m.position ++ tokens.toList.drop m.position := by
    have hsplit := List.take_append_drop (m.position - p) (tokens.toList.drop p)
    rw [List.drop_drop, Nat.add_sub_cancel' hle] at hsplit
    exact hsplit.symm
  generalize Input.segment ⟨tokens, false⟩ p m.position = row at htype hlength hdrop
  rw [← hlength] at hdrop hstop hmove
  exact ⟨row, htype, hdrop, hstop, hmove⟩

variable (tokens) in
-- From the position on, types with commas behind them are read up to one that aborts.
private def AbortsWithin (s : State) (failure : Failure) (p : Nat) : Prop :=
  ∃ (front : List Token) (types : List TypeExpr), Fronts IsType front types ∧
    tokens.toList.drop p = front ++ tokens.toList.drop (p + front.length) ∧
    AbortsAt tokens s failure (p + front.length)

private theorem abortsWithin_nil {p : Nat} (h : AbortsAt tokens s failure p) :
    AbortsWithin tokens s failure p := ⟨[], [], .nil, rfl, h⟩

private theorem AbortsWithin.cons {p : Nat} {row : List Token} {type : TypeExpr} {comma : Token}
    (hrow : IsType row type)
    (hdrop : tokens.toList.drop p = row ++ tokens.toList.drop (p + row.length))
    (hcomma : comma.kind = .comma)
    (hbehind : tokens.toList.drop (p + row.length) =
      comma :: tokens.toList.drop (p + row.length + 1))
    (h : AbortsWithin tokens s failure (p + row.length + 1)) :
    AbortsWithin tokens s failure p := by
  obtain ⟨front, types, hfront, hrest, haborts⟩ := h
  have hposition : p + (row ++ comma :: front).length = p + row.length + 1 + front.length := by
    simp only [List.length_append, List.length_cons]
    omega
  refine ⟨row ++ comma :: front, type :: types, .cons hrow hcomma hfront, ?_⟩
  rw [hposition, List.append_assoc, List.cons_append, ← hrest, ← hbehind]
  exact ⟨hdrop, haborts⟩

-- An abort behind items comes from one of them, which a comma stands before.
private theorem abortsWithin_of_repeated {allowed p : Nat} {m : State} (hp : p ≤ tokens.size)
    (h : Step.repeated (reader tokens ((Parser.token .comma).skipLeft typeExpr)) allowed
      ⟨tokens, false⟩ (s.moveTo p) = .ok (.fatal failure, m)) :
    ∃ comma : Token, comma.kind = .comma ∧
      tokens.toList.drop p = comma :: tokens.toList.drop (p + 1) ∧
      AbortsWithin tokens s failure (p + 1) := by
  induction allowed generalizing p with
  | zero => cases h
  | succ allowed ih =>
    obtain hitem | ⟨type, m', hitem, hmore⟩ := Step.repeated_eq_fatal h
    · obtain ⟨_, hnever⟩ | ⟨comma, m', m'', hcomma, htype⟩ :=
        Step.seq_eq_fatal (Step.map_eq_fatal hitem)
      · exact absurd hnever Step.token_ne_fatal
      · obtain ⟨hkind, hdrop, hlt, rfl⟩ := sign_of_ok (by decide) hcomma
        exact ⟨comma, hkind, hdrop, abortsWithin_nil ⟨m'', htype⟩⟩
    · obtain ⟨⟨comma, _⟩, hitem, rfl⟩ := Step.map_eq_ok.1 hitem
      obtain ⟨_, hcomma, htype⟩ := Step.seq_eq_ok.1 hitem
      obtain ⟨hkind, hdrop, hlt, rfl⟩ := sign_of_ok (by decide) hcomma
      obtain ⟨row, hrow, hbehind, hsize, rfl⟩ := type_of_ok hlt htype
      obtain ⟨second, hsecond, hrest, hwithin⟩ := ih hsize hmore
      exact ⟨comma, hkind, hdrop, hwithin.cons hrow hbehind hsecond hrest⟩

private theorem abortsWithin_of_arguments {p : Nat} {m : State}
    (h : reader tokens typeArguments ⟨tokens, false⟩ (s.moveTo p) = .ok (.fatal failure, m)) :
    ∃ less : Token, less.kind = .less ∧
      tokens.toList.drop p = less :: tokens.toList.drop (p + 1) ∧
      AbortsWithin tokens s failure (p + 1) := by
  obtain ⟨_, hlist⟩ | ⟨_, _, _, -, hnever⟩ := Step.seq_eq_fatal (Step.map_eq_fatal h)
  · obtain ⟨_, hnever⟩ | ⟨less, _, _, hless, hlist⟩ := Step.seq_eq_fatal (Step.map_eq_fatal hlist)
    · exact absurd hnever Step.token_ne_fatal
    obtain ⟨hkind, hdrop, hlt, rfl⟩ := sign_of_ok (by decide) hless
    obtain ⟨m', htype⟩ | ⟨type, _, m', htype, hmore⟩ := Step.seq_eq_fatal (Step.map_eq_fatal hlist)
    · exact ⟨less, hkind, hdrop, abortsWithin_nil ⟨m', htype⟩⟩
    · obtain ⟨row, hrow, hbehind, hsize, rfl⟩ := type_of_ok hlt htype
      obtain ⟨second, hsecond, hrest, hwithin⟩ := abortsWithin_of_repeated hsize hmore
      exact ⟨less, hkind, hdrop, hwithin.cons hrow hbehind hsecond hrest⟩
  · exact absurd hnever Step.token_ne_fatal

private theorem tokenAt_of_drop {p : Nat} {token : Token} {rest : List Token}
    (hrest : tokens.toList.drop p = token :: rest) : Input.tokenAt ⟨tokens, false⟩ p = token :=
  ((State.start.moveTo p).faces_view ⟨tokens, false⟩).current hrest

-- A type that a name begins aborts from inside its arguments.
private theorem arguments_of_aborts {p : Nat} {word : Token} {rest : List Token}
    (hrest : tokens.toList.drop p = word :: rest) (hword : word.kind = .identifier)
    (h : AbortsAt tokens s failure p) : ∃ m, reader tokens typeArguments ⟨tokens, false⟩
      (s.moveTo (p + 1)) = .ok (.fatal failure, m) := by
  have hkind : (Input.tokenAt ⟨tokens, false⟩ p).kind = .identifier := by
    rw [tokenAt_of_drop hrest, hword]
  obtain ⟨m, htype⟩ := h
  have hchoice := (parse_rule tokens .typeExpression (s.moveTo p)).symm.trans htype
  obtain hnamed | ⟨missed, m', hnever, -⟩ := Step.orElse_eq_fatal hchoice
  · obtain ⟨_, hnever⟩ | ⟨_, _, m', hname, hoptional⟩ :=
      Step.seq_eq_fatal (Step.map_eq_fatal hnamed)
    · exact absurd hnever Step.value_ne_fatal
    · obtain ⟨-, -, -, rfl⟩ := Step.value_eq_ok.1 hname
      have hlt : p < tokens.size := Input.lt_size_of_kind ⟨tokens, false⟩ (by rw [hkind]; decide)
      rw [State.position_moveTo, Input.after, if_pos hlt] at hoptional
      exact ⟨m', Step.optional_eq_fatal hoptional⟩
  · have hcommits : namedType.Commits (fun _ ↦ False) .identifier := ⟨rfl, fun _ ↦ trivial⟩
    exact absurd hnever (hcommits.firmAt (fun _ hfalse ↦ hfalse.elim) (s := s.moveTo p) hkind _ _)

-- No type aborts but behind its first token.
private theorem begins_of_aborts {p : Nat} (h : AbortsAt tokens s failure p) :
    begins .typeExpression (View.ahead ⟨(s.moveTo p).isBehindLineEnd ⟨tokens, false⟩,
      tokens.toList.drop p⟩) = true := by
  rw [← Bool.not_eq_false]
  intro hnone
  obtain ⟨m, hfatal⟩ := h
  have hdeclines : (reader tokens typeExpr).Declines tokens s.indent
      ((s.moveTo p).view ⟨tokens, false⟩) :=
    declines_rule hnone
  obtain ⟨missed, position, hmissed⟩ := hdeclines (s.moveTo p) ((s.moveTo p).faces_view _)
  cases hmissed.symm.trans hfatal

-- A type that a name begins aborts because one between brackets or behind periods does, where an
-- argument is due.
private theorem due_of_aborts (hcarrying : Input.Carrying ⟨tokens, false⟩) {p : Nat} {word : Token}
    {rest : List Token} (hrest : tokens.toList.drop p = word :: rest)
    (hword : word.kind = .identifier) (h : AbortsAt tokens s failure p) :
    ∃ (row : List Token) (sign : Token) (later : List Token), rest = row ++ sign :: later ∧
      Due row ∧ sign.kind ∈ [.leftBracket, .leftParen, .doublePeriod] ∧
      AbortsAt tokens s failure (p + 1 + row.length) := by
  induction hleft : rest.length using Nat.strongRecOn generalizing p word rest with
  | ind n ih =>
    obtain ⟨m, harguments⟩ := arguments_of_aborts hrest hword h
    obtain ⟨less, hless, hdrop, front, types, hfront, hbetween, haborts⟩ :=
      abortsWithin_of_arguments harguments
    have hbehind : tokens.toList.drop (p + 1) = rest := by
      rw [← List.drop_drop, hrest]
      rfl
    rw [hbehind, hbetween] at hdrop
    generalize hplace : p + 1 + 1 + front.length = place at hdrop haborts
    have hbegins := begins_of_aborts haborts
    cases hlater : tokens.toList.drop place with
    | nil =>
      rw [hlater] at hbegins
      cases hbegins
    | cons sign later =>
      rw [hlater] at hbegins hdrop
      by_cases hsign : sign.kind = .identifier
      · have hcarries := hcarrying.tokenAt place
        rw [tokenAt_of_drop hlater, hsign] at hcarries
        obtain ⟨value, hvalue⟩ := hcarries
        have hlt : later.length < n := by
          rw [← hleft, hdrop]
          simp only [List.length_cons, List.length_append]
          omega
        obtain ⟨row, opening, last, rfl, hrow, hopening, hinner⟩ :=
          ih _ hlt hlater hsign haborts rfl
        refine ⟨less :: (front ++ sign :: row), opening, last, ?_,
          .nested hless hfront ⟨hsign, hvalue⟩ hrow, hopening, ?_⟩
        · simpa only [List.cons_append, List.append_assoc] using hdrop
        · have hposition : p + 1 + (less :: (front ++ sign :: row)).length =
              place + 1 + row.length := by
            rw [← hplace]
            simp only [List.length_cons, List.length_append]
            omega
          rwa [hposition]
      · -- Of the tokens that begin a type only those that commit are left.
        refine ⟨less :: front, sign, later, hdrop, .argument hless hfront, ?_, ?_⟩
        · rw [View.ahead_cons] at hbegins
          simp only [begins, Bool.or_eq_true, decide_eq_true_eq] at hbegins
          simpa [hsign, or_assoc] using hbegins
        · have hposition : p + 1 + (less :: front).length = place := by
            rw [← hplace, List.length_cons]
            omega
          rwa [hposition]

end Origin

/-! ### Names with and without arguments -/

/-- Type arguments stand first, between their signs; with these they are so many tokens. -/
inductive Arguments : List Token → List TypeExpr → Nat → Prop where
  | mk {less greater : Token} {row later : List Token} {types : List TypeExpr} :
      less.kind = .less → Commas IsType row types → greater.kind = .greater →
        Arguments (less :: (row ++ greater :: later)) types (row.length + 2)

/-- How a type is read that a name begins, with the rest of the tokens behind the name. -/
structure ReadsNamed (input : Input) (s : State) (word : Token) (name : String)
    (rest : List Token) : Prop where
  /-- The type is fatal exactly if one that is due as an argument is, of those that commit at their
  first token. -/
  fatal_iff : ∀ failure, FailsFatally input s .typeExpression failure ↔
    ∃ row sign later, rest = row ++ sign :: later ∧ Due row ∧
      sign.kind ∈ [.leftBracket, .leftParen, .doublePeriod] ∧
      FailsFatally input (s.moveTo (s.position + 1 + row.length)) .typeExpression failure
  arguments : ∀ types length, Arguments rest types length →
    Answers input s .typeExpression (.ok (.named word.location name types))
      (s.position + 1 + length)
  plain : (∀ types length, ¬ Arguments rest types length) →
    (∀ failure, ¬ FailsFatally input s .typeExpression failure) →
    Answers input s .typeExpression (.ok (.named word.location name [])) (s.position + 1)
  /-- What is no argument is the right side of a comparison with a new object of the name. -/
  comparison : (∀ types length, ¬ Arguments rest types length) →
    (∀ failure, ¬ FailsFatally input s .typeExpression failure) →
    ∀ p new less later right stop, s.position = p + 1 → input.tokens[p]? = some new →
      new.kind = .kwNew → rest = less :: later → less.kind = .less →
      Answers input (s.moveTo (p + 3)) .additive (.ok right) stop →
      Answers input (s.moveTo p) .relation
        (.ok (.binary new.location .less (.create new.location (.named word.location name []))
          right)) stop

section Named

variable {s : State} {word : Token} {value : String} {rest : List Token}

private theorem fatal_iff (hcarrying : Input.Carrying ⟨tokens, false⟩)
    (hsound : Sound tokens s.table) {memoize : Bool} (hword : IsName word value)
    (hrest : tokens.toList.drop s.position = word :: rest) (failure : Failure) :
    FailsFatally ⟨tokens, memoize⟩ s .typeExpression failure ↔
      ∃ row sign later, rest = row ++ sign :: later ∧ Due row ∧
        sign.kind ∈ [.leftBracket, .leftParen, .doublePeriod] ∧
        FailsFatally ⟨tokens, memoize⟩ (s.moveTo (s.position + 1 + row.length)) .typeExpression
          failure := by
  have haborts (p : Nat) : FailsFatally ⟨tokens, memoize⟩ (s.moveTo p) .typeExpression failure ↔
      AbortsAt tokens s failure p := by
    constructor
    · rintro ⟨stop, hstop⟩
      exact ⟨_, (answers_iff tokens (s := s.moveTo p) hsound).1 hstop⟩
    · rintro ⟨s', hs'⟩
      have hmove : s' = (s.moveTo p).moveTo s'.position :=
        (call_agrees_self tokens _ .typeExpression).moveTo_eq hs'
      rw [hmove] at hs'
      exact ⟨_, (answers_iff tokens (s := s.moveTo p) hsound).2 hs'⟩
  simp only [haborts]
  refine (haborts s.position).trans
    ⟨fun h ↦ due_of_aborts hcarrying hrest hword.kind h, ?_⟩
  rintro ⟨row, sign, later, rfl, hrow, -, s', hs'⟩
  have hdrop : tokens.toList.drop (s.position + 1 + row.length) = sign :: later := by
    rw [← List.drop_drop, ← List.drop_drop, hrest]
    exact List.drop_left
  have hmove := (call_agrees_self tokens _ .typeExpression).moveTo_eq hs'
  rw [hmove] at hs'
  have hlast : (reader tokens typeExpr).Aborts tokens s.indent ⟨false, sign :: later⟩
      (· = failure) :=
    aborts_of_parse (s := s.moveTo (s.position + 1 + row.length)) hs' hdrop nofun
  obtain ⟨_, _, hwhole, rfl⟩ := aborts_of_due hword hrow hlast _ s ⟨rfl, hrest, rfl⟩
  exact ⟨_, hwhole⟩

private theorem lt_size_of_drop {p : Nat} (hrest : tokens.toList.drop p = word :: rest) :
    p < tokens.size := by
  rw [← Nat.not_le]
  intro hle
  rw [List.drop_eq_nil_of_le (by simpa using hle)] at hrest
  cases hrest

-- A type that a name begins, and that is not fatal, is the name with or without arguments.
private theorem plain_or_arguments (hcarrying : Input.Carrying ⟨tokens, false⟩)
    (hsound : Sound tokens s.table) {memoize : Bool} (hword : IsName word value)
    (hrest : tokens.toList.drop s.position = word :: rest)
    (hnone : ∀ types length, ¬ Arguments rest types length)
    (hfatal : ∀ failure, ¬ FailsFatally ⟨tokens, memoize⟩ s .typeExpression failure) :
    Answers ⟨tokens, memoize⟩ s .typeExpression (.ok (.named word.location value []))
      (s.position + 1) := by
  obtain ⟨outcome, s', hparse, -⟩ := parse_ok hcarrying false .typeExpression hsound
  have hmove : s' = s.moveTo s'.position :=
    (call_agrees_self tokens _ .typeExpression).moveTo_eq hparse
  rw [answers_iff tokens hsound]
  have hkind : (s.current ⟨tokens, false⟩).kind = .identifier := by
    rw [State.current, tokenAt_of_drop hrest, hword.kind]
  cases outcome with
  | recoverable failure =>
    have hbegins : begins .typeExpression (s.current ⟨tokens, false⟩).kind = true := by
      rw [hkind]
      rfl
    exact absurd hparse (firmAt_rule (by simp [IsFirm]) hbegins failure s')
  | fatal failure =>
    rw [hmove] at hparse
    exact absurd ⟨_, (answers_iff tokens hsound).2 hparse⟩ (hfatal failure)
  | ok found =>
    obtain ⟨row, htype, hdrop, -, hstop⟩ :=
      type_of_ok (s := s) (Nat.le_of_lt (lt_size_of_drop hrest)) hparse
    rw [hrest] at hdrop
    rw [hstop] at hparse
    cases htype with
    | plain hname =>
      cases hdrop
      have hpayload := hword.payload.symm.trans hname.payload
      cases hpayload
      exact hparse
    | @generic _ less greater _ row _ _ hless htypes hgreater =>
      rw [List.cons_append, List.cons_append, List.append_assoc] at hdrop
      cases hdrop
      exact absurd (.mk hless htypes hgreater) (hnone _ _)
    | list hopening | tuple hopening | variadic hopening =>
      cases hdrop
      rw [hword.kind] at hopening
      cases hopening

private theorem answers_arguments (hsound : Sound tokens s.table) {memoize : Bool}
    (hword : IsName word value) (hrest : tokens.toList.drop s.position = word :: rest)
    {types : List TypeExpr} {length : Nat} (h : Arguments rest types length) :
    Answers ⟨tokens, memoize⟩ s .typeExpression (.ok (.named word.location value types))
      (s.position + 1 + length) := by
  cases h with
  | @mk less greater row later _ hless htypes hgreater =>
    have hread : (reader tokens typeExpr).Yields tokens s.indent
        ⟨s.isBehindLineEnd ⟨tokens, false⟩, word :: less :: (row ++ greater :: later)⟩
        ⟨false, later⟩ (· = .named word.location value types) :=
      yields_rule (yields_choice_of_refuses (View.ahead_of_kind hword.kind _ _) [] trivial
        (yields_generic (readsItems_typeExpr.imp And.left) hword hless htypes hgreater _ later))
    obtain ⟨_, stop, hparse, rfl, hnext⟩ := hread s ⟨rfl, hrest, rfl⟩
    obtain ⟨derived, -, hdrop, -, hstop⟩ :=
      type_of_ok (s := s) (Nat.le_of_lt (lt_size_of_drop hrest)) hparse
    have hposition : stop = s.position + derived.length := congrArg State.position hstop
    have hlater : tokens.toList.drop stop = later := hnext.tokens
    rw [← hposition, hlater, hrest] at hdrop
    have hlength := congrArg List.length hdrop
    simp only [List.length_cons, List.length_append] at hlength
    have hend : s.position + 1 + (row.length + 2) = stop := by omega
    rw [answers_iff tokens hsound, hend]
    exact hparse

private theorem yields_less {less : Token} (hless : less.kind = .less) (later : List Token) :
    (reader tokens (operatorOf .relation)).Yields tokens indent ⟨false, less :: later⟩
      ⟨false, later⟩ (· = .less) := by
  refine Step.Yields.sameLine ?_ rfl
  refine yields_choice_of_refuses (View.ahead_of_kind hless _ _)
    [(Parser.token .greater).map fun _ ↦ BinaryOperator.greater,
      (Parser.token .greaterOrEqual).map fun _ ↦ BinaryOperator.greaterOrEqual]
    ⟨by rintro ⟨⟩, by rintro ⟨⟩, trivial⟩
    ((yields_sign hless (by decide) false later).map fun _ _ ↦ rfl)

-- Before a comparing sign a new object of a name is an operand, if its type is the name alone.
private theorem yields_created {new less : Token} {later : List Token} (hnew : new.kind = .kwNew)
    (hless : less.kind = .less)
    (htype : (reader tokens typeExpr).Yields tokens indent ⟨false, word :: less :: later⟩
      ⟨false, less :: later⟩ (· = .named word.location value [])) (ended : Bool) :
    (reader tokens (.rule .additive)).Yields tokens indent ⟨ended, new :: word :: less :: later⟩
      ⟨false, less :: later⟩ (· = .create new.location (.named word.location value [])) := by
  have hatom : (reader tokens (place 11)).Yields tokens indent
      ⟨ended, new :: word :: less :: later⟩ ⟨false, less :: later⟩
      (· = .create new.location (.named word.location value [])) := by
    refine yields_rule (yields_choice_of_refuses (View.ahead_of_kind hnew _ _) [doBlock]
      ⟨by rintro ⟨⟩, trivial⟩ (((yields_sign hnew (by decide) _ _).seq (htype.commitAs _)).map ?_))
    rintro ⟨_, _⟩ ⟨rfl, rfl⟩
    rfl
  have hfollows : View.Follows ⟨false, less :: later⟩ 7 0 :=
    View.follows_of_line rfl (by rw [View.ahead_cons, hless]; rfl) 0
  exact yields_looser (by decide : 7 ≤ 11) (Nat.le_refl _) hatom
    (by rw [View.ahead_cons, hnew]; rfl) hfollows

-- A new object of a name is the left side of a comparison, if its type is the name alone.
private theorem answers_comparison (hsound : Sound tokens s.table) {memoize : Bool}
    {new less : Token} {later : List Token} {right : Expression} {stop : Nat}
    (hnew : new.kind = .kwNew) (hword : word.kind = .identifier) (hless : less.kind = .less)
    (hrest : tokens.toList.drop s.position = new :: word :: less :: later)
    (htype : Answers ⟨tokens, memoize⟩ (s.moveTo (s.position + 1)) .typeExpression
      (.ok (.named word.location value [])) (s.position + 2))
    (hright : Answers ⟨tokens, memoize⟩ (s.moveTo (s.position + 3)) .additive (.ok right) stop) :
    Answers ⟨tokens, memoize⟩ s .relation
      (.ok (.binary new.location .less (.create new.location (.named word.location value []))
        right)) stop := by
  rw [answers_iff tokens hsound]
  have hread := (answers_iff tokens (s := s.moveTo (s.position + 1)) hsound).1 htype
  have hoperand := (answers_iff tokens (s := s.moveTo (s.position + 3)) hsound).1 hright
  have hs : s.Faces ⟨tokens, false⟩ s.indent
      ⟨s.isBehindLineEnd ⟨tokens, false⟩, new :: word :: less :: later⟩ := ⟨rfl, hrest, rfl⟩
  have hdrop : tokens.toList.drop (s.position + 1) = word :: less :: later :=
    (hs.moved [] rfl).tokens
  have hdrop' : tokens.toList.drop (s.position + 2) = less :: later := (hs.moved [new] rfl).tokens
  have hdrop'' : tokens.toList.drop (s.position + 3) = later :=
    (hs.moved [new, word] rfl).tokens
  have hlater : later ≠ [] := by
    rintro rfl
    have hmoves := call_moves tokens hoperand
    have hlt : s.position + 3 < stop := hmoves.lt (by simp [sure])
    have hsize : stop ≤ max (s.position + 3) tokens.size := hmoves.within.2
    have hend := List.drop_eq_nil_iff.1 hdrop''
    rw [Array.length_toList] at hend
    omega
  -- The left side, the operator and the right side stand one behind the other.
  have hnamed : (reader tokens typeExpr).Yields tokens s.indent ⟨false, word :: less :: later⟩
      ((s.moveTo (s.position + 2)).view ⟨tokens, false⟩) (· = .named word.location value []) :=
    yields_of_parse (s := s.moveTo (s.position + 1)) hread hdrop nofun
  have hbehind : (s.moveTo (s.position + 2)).view ⟨tokens, false⟩ = ⟨false, less :: later⟩ := by
    rw [← View.behind_of_ne (hword ▸ by decide : word.kind ≠ .endOfLine)]
    exact (hs.moved [new] rfl).view_eq
  rw [hbehind] at hnamed
  obtain ⟨_, middle, hleft, rfl, hmiddle⟩ := yields_created hnew hless hnamed _ s hs
  obtain rfl : s.position + 2 = middle :=
    position_eq_of_faces (s := s.moveTo (s.position + 2)) hmiddle hdrop' nofun
  obtain ⟨_, behind, hoperator, rfl, hfaces⟩ := yields_less hless later _ hmiddle
  obtain rfl : s.position + 3 = behind :=
    position_eq_of_faces (s := s.moveTo (s.position + 3)) hfaces hdrop'' hlater
  have hcomparison : reader tokens (ladder .relation) ⟨tokens, false⟩ s =
      .ok (.ok _, s.moveTo stop) :=
    Step.map_eq_ok.2 ⟨(.create new.location (.named word.location value []), some (.less, right)),
      Step.seq_eq_ok.2 ⟨_, hleft, Step.optional_eq_ok.2 (.inl ⟨(.less, right), rfl,
        Step.seq_eq_ok.2 ⟨_, hoperator, Step.commit_eq_ok.2 hoperand⟩⟩)⟩, rfl⟩
  exact (parse_rule tokens .relation s).trans hcomparison

end Named

/-- Over tokens that carry what their kinds say, a type that a name begins is read with the type
arguments behind the name or, where none stand there, as the name alone, so that what stands behind
a comparing sign is compared. It fails fatally only if a type does that is due as an argument and
commits at its first token: one between brackets, or one behind two periods. -/
theorem readsNamed_of_carrying {tokens : Array Token} (hcarrying : Input.Carrying ⟨tokens, false⟩)
    (memoize : Bool) {s : State} (hs : Filled ⟨tokens, memoize⟩ s.table) {word : Token}
    {rest : List Token} (hrest : tokens.toList.drop s.position = word :: rest)
    (hword : word.kind = .identifier) :
    ∃ name, IsName word name ∧ ReadsNamed ⟨tokens, memoize⟩ s word name rest := by
  have hcarries := hcarrying.tokenAt s.position
  rw [tokenAt_of_drop hrest, hword] at hcarries
  obtain ⟨name, hname⟩ := hcarries
  have hnamed : IsName word name := ⟨hword, hname⟩
  refine ⟨name, hnamed, fatal_iff hcarrying hs.sound hnamed hrest,
    fun types length ↦ answers_arguments hs.sound hnamed hrest,
    plain_or_arguments hcarrying hs.sound hnamed hrest, ?_⟩
  intro hnone hfatal p new less later right stop hp hget hnew hlater hless hright
  subst hlater
  have hplain := plain_or_arguments hcarrying hs.sound hnamed hrest hnone hfatal
  have hself : (s.moveTo p).moveTo (p + 1) = s := by
    rw [← hp]
    rfl
  have hdrop : tokens.toList.drop p = new :: word :: less :: later := by
    obtain ⟨hlt, hnew⟩ := Array.getElem?_eq_some_iff.1 hget
    rw [List.drop_eq_getElem_cons (by simpa using hlt), Array.getElem_toList, hnew, ← hp, hrest]
  refine answers_comparison (s := s.moveTo p) hs.sound hnew hword hless hdrop ?_ hright
  rw [hp] at hplain
  rw [State.position_moveTo, hself]
  exact hplain

/-! ### Two comparisons -/

-- The answer is a success that stops at the position.
private def reaches {α : Type} (stop : Nat) : Except Fault (Outcome α × State) → Bool
  | .ok (.ok _, reached) => reached.position = stop
  | _ => false

private theorem exists_of_reaches {input : Input} {s : State} {rule : Rule} {stop : Nat}
    (h : reaches stop (parse (.rule rule) input s) = true) :
    ∃ found, Answers input s rule (.ok found) stop := by
  unfold Answers
  revert h
  generalize parse (.rule rule) input s = answer
  intro h
  obtain fault | ⟨found | failure | failure, reached⟩ := answer
  · cases h
  · exact ⟨found, reached, rfl, of_decide_eq_true h⟩
  · cases h
  · cases h

-- The tokens of a new object that is compared with a number.
private def comparedTokens : List Token :=
  [⟨⟨.kwNew, .none⟩, .concrete "f" 1 1 0⟩, ⟨⟨.identifier, .text "Foo"⟩, .concrete "f" 1 5 4⟩,
    ⟨⟨.less, .none⟩, .concrete "f" 1 9 8⟩, ⟨⟨.integer, .integer 1⟩, .concrete "f" 1 11 10⟩,
    ⟨⟨.endOfInput, .none⟩, .concrete "f" 1 12 11⟩]

/-- A new object is compared with a number. -/
theorem readsNamed_of_carrying_compared :
    ∃ right, Answers ⟨comparedTokens.toArray, true⟩ ⟨0, [], .empty⟩ .relation
      (.ok (.binary (.concrete "f" 1 1 0) .less (.create (.concrete "f" 1 1 0)
        (.named (.concrete "f" 1 5 4) "Foo" [])) right)) 4 := by
  obtain ⟨right, hright⟩ : ∃ right,
      Answers ⟨comparedTokens.toArray, true⟩ ⟨3, [], .empty⟩ .additive (.ok right) 4 :=
    exists_of_reaches (by decide +kernel)
  have hcarrying : Input.Carrying ⟨comparedTokens.toArray, false⟩ := by
    simp [Input.Carrying, comparedTokens, TokenKind.Carries]
  have hrow : comparedTokens.toArray.toList.drop 1 =
      comparedTokens[1] :: [comparedTokens[2], comparedTokens[3], comparedTokens[4]] := rfl
  obtain ⟨name, hname, hreads⟩ :=
    readsNamed_of_carrying hcarrying true (s := ⟨1, [], .empty⟩) .empty hrow rfl
  cases hname.payload
  have hplain : ∀ token ∈ [comparedTokens[2], comparedTokens[3], comparedTokens[4]],
      token.kind ∉ [.greater, .leftBracket, .leftParen, .doublePeriod] := by decide
  refine ⟨right, hreads.comparison ?_ ?_ 0 comparedTokens[0] comparedTokens[2] _ right 4 rfl rfl rfl
    rfl rfl hright⟩
  · rintro types length harguments
    generalize [comparedTokens[2], comparedTokens[3], comparedTokens[4]] = rest at hplain harguments
    cases harguments with
    | @mk _ greater _ _ _ _ _ hgreater =>
      refine hplain greater (by simp) ?_
      simp [hgreater]
  · rintro failure hfatal
    obtain ⟨row, sign, later, hsplit, -, hsign, -⟩ := (hreads.fatal_iff failure).1 hfatal
    rw [hsplit] at hplain
    exact hplain sign (by simp) (List.mem_cons_of_mem _ hsign)

/-- A list is no right side of a comparison with a new object: the sign is taken for one that opens
type arguments, and the list for a type, whose failure is fatal. -/
theorem typeExpression_fatal_of_list :
    ∃ tokens, Token.ofSource "f" "new Foo < [1]" = .ok tokens ∧
      FailsFatally ⟨tokens.toArray, true⟩ ⟨1, [], .empty⟩ .typeExpression
        ⟨.concrete "f" 1 12 11, .noAlternative ⟨.integer, .integer 1⟩⟩ ∧
      (∃ found, Answers ⟨tokens.toArray, true⟩ ⟨3, [], .empty⟩ .additive (.ok found) 6) ∧
      FailsFatally ⟨tokens.toArray, true⟩ ⟨0, [], .empty⟩ .expression
        ⟨.concrete "f" 1 12 11, .noAlternative ⟨.integer, .integer 1⟩⟩ := by
  refine ⟨_, show Token.ofSource "f" "new Foo < [1]" = .ok [⟨⟨.kwNew, .none⟩, .concrete "f" 1 1 0⟩,
    ⟨⟨.identifier, .text "Foo"⟩, .concrete "f" 1 5 4⟩, ⟨⟨.less, .none⟩, .concrete "f" 1 9 8⟩,
    ⟨⟨.leftBracket, .none⟩, .concrete "f" 1 11 10⟩,
    ⟨⟨.integer, .integer 1⟩, .concrete "f" 1 12 11⟩,
    ⟨⟨.rightBracket, .none⟩, .concrete "f" 1 13 12⟩,
    ⟨⟨.endOfInput, .none⟩, .concrete "f" 1 14 13⟩] by decide +kernel, ?_, ?_, ?_⟩
  · exact failsFatally_of_isFatal (by decide +kernel)
  · exact exists_of_reaches (by decide +kernel)
  · exact failsFatally_of_isFatal (by decide +kernel)

end Offside.Grammar
