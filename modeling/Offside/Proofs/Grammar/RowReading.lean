import Offside.Proofs.Grammar.Refusal
import Offside.Proofs.Packrat.Failing

/-!
# Reading rows of tokens

What is read of a sign, of a name, and of items with commas between them, if each item is read
before a comma and before what closes the row (`ReadsItems`); and where the reading of such a row
aborts because an item does.
-/

namespace Offside

open Packrat

/-- Behind a token that ends no line, no line has ended. -/
theorem Packrat.View.behind_of_ne {token : Token} (h : token.kind ≠ .endOfLine)
    (rest : List Token) : View.behind token rest = ⟨false, rest⟩ := by
  simp [View.behind, h]

/-- The kind of the next token is all that is seen ahead. -/
theorem Packrat.View.ahead_of_kind {token : Token} {kind : TokenKind} (h : token.kind = kind)
    (ended : Bool) (rest : List Token) : View.ahead ⟨ended, token :: rest⟩ = kind := h

/-- The state stands before one view only. -/
theorem Packrat.State.Faces.view_eq {s : State} {input : Input} {indent : Nat} {view : View}
    (h : s.Faces input indent view) : s.view input = view := by
  rw [State.view, h.ended, h.tokens]

namespace Grammar

variable {tokens : Array Token} {indent : Nat} {α : Type}

/-! ### One run for all -/

section Runs

variable {rule : Rule} {s : State} {stop : Nat} {view : View}

/-- The tokens that are left, if there are any, tell the position. -/
theorem position_eq_of_faces {t : State} (ht : t.Faces ⟨tokens, false⟩ indent view)
    (hview : tokens.toList.drop s.position = view.tokens) (hne : view.tokens ≠ []) :
    s.position = t.position := by
  have hlength := List.length_pos_iff.2 hne
  have hleft := congrArg List.length hview
  have hright := congrArg List.length ht.tokens
  simp only [List.length_drop, Array.length_toList] at hleft hright
  omega

/-- What a rule answers before some tokens it answers wherever they come next. -/
theorem yields_of_parse {found : rule.Result}
    (h : parse (.rule rule) ⟨tokens, false⟩ s = .ok (.ok found, s.moveTo stop))
    (hview : tokens.toList.drop s.position = view.tokens) (hne : view.tokens ≠ []) :
    (reader tokens (.rule rule)).Yields tokens s.indent view
      ((s.moveTo stop).view ⟨tokens, false⟩) (· = found) := by
  intro t ht
  have hposition := position_eq_of_faces ht hview hne
  exact ⟨found, stop, parse_rule_at tokens hposition ht.indent.symm h, rfl, ht.indent, rfl, rfl⟩

/-- A rule that fails fatally before some tokens does so wherever they come next. -/
theorem aborts_of_parse {failure : Failure}
    (h : parse (.rule rule) ⟨tokens, false⟩ s = .ok (.fatal failure, s.moveTo stop))
    (hview : tokens.toList.drop s.position = view.tokens) (hne : view.tokens ≠ []) :
    (reader tokens (.rule rule)).Aborts tokens s.indent view (· = failure) := by
  intro t ht
  have hposition := position_eq_of_faces ht hview hne
  exact ⟨failure, stop, parse_rule_at tokens hposition ht.indent.symm h, rfl⟩

end Runs

/-! ### Rows -/

/-- A sign is passed. -/
theorem yields_sign {token : Token} {kind : TokenKind} (hkind : token.kind = kind)
    (hne : kind ≠ .endOfLine) (ended : Bool) (rest : List Token) :
    (reader tokens (.token kind)).Yields tokens indent ⟨ended, token :: rest⟩ ⟨false, rest⟩
      (· = token) := by
  rw [← View.behind_of_ne (hkind ▸ hne : token.kind ≠ .endOfLine)]
  exact Step.yields_token rfl hkind indent

/-- A name is read. -/
theorem yields_word {word : Token} {value : String} (h : IsName word value) (ended : Bool)
    (rest : List Token) :
    (reader tokens name).Yields tokens indent ⟨ended, word :: rest⟩ ⟨false, rest⟩
      (· = (value, word.location)) := by
  rw [← View.behind_of_ne (h.kind ▸ by decide : word.kind ≠ .endOfLine)]
  exact Step.yields_value rfl h.kind (by rw [h.payload]) indent

variable (tokens) (indent)

/-- The parser reads each of the items where the tokens behind it are such as it may stop at; a
comma is. -/
structure ReadsItems (item : Parser α) (Item : List Token → α → Prop)
    (stops : List Token → Prop) : Prop where
  stops_comma : ∀ {comma : Token} (rest : List Token), comma.kind = .comma → stops (comma :: rest)
  yields : ∀ {row : List Token} {thing : α}, Item row thing → ∀ {rest : List Token}, stops rest →
    ∀ ended : Bool, (reader tokens item).Yields tokens indent ⟨ended, row ++ rest⟩ ⟨false, rest⟩
      (· = thing)

variable {tokens} {indent} {item again : Parser α} {Item : List Token → α → Prop}
  {stops : List Token → Prop} {row front rest : List Token} {things : List α}

/-- Items are read as well if their failures are fatal. -/
theorem ReadsItems.commit (h : ReadsItems tokens indent item Item stops) :
    ReadsItems tokens indent item.commit Item stops :=
  ⟨h.stops_comma, fun hitem _ hrest ended ↦ (h.yields hitem hrest ended).commit⟩

/-- Items are read as well if fewer are asked for. -/
theorem ReadsItems.imp {Narrower : List Token → α → Prop}
    (h : ReadsItems tokens indent item Item stops)
    (himp : ∀ {row thing}, Narrower row thing → Item row thing) :
    ReadsItems tokens indent item Narrower stops :=
  ⟨h.stops_comma, fun hitem _ hrest ended ↦ h.yields (himp hitem) hrest ended⟩

private theorem length_lt_cons (sign : Token) (row rest : List Token) :
    rest.length < (sign :: (row ++ rest)).length := by
  rw [List.length_cons, List.length_append]
  omega

/-- Where no comma comes next, no more items do. -/
theorem yields_noMore (hnext : View.ahead ⟨false, rest⟩ ≠ .comma) :
    (reader tokens (.many ((Parser.token .comma).skipLeft item))).Yields tokens indent
      ⟨false, rest⟩ ⟨false, rest⟩ (· = []) :=
  (((Step.declines_token hnext indent).seq _).map _).many

/-- Behind a comma the items are read up to what comes behind them. -/
theorem yields_more (hitem : ReadsItems tokens indent item Item stops) (h : Commas Item row things)
    (hrest : stops rest) (hnext : View.ahead ⟨false, rest⟩ ≠ .comma) {comma : Token}
    (hcomma : comma.kind = .comma) (ended : Bool) :
    (reader tokens (.many ((Parser.token .comma).skipLeft item))).Yields tokens indent
      ⟨ended, comma :: (row ++ rest)⟩ ⟨false, rest⟩ (· = things) := by
  induction h generalizing comma ended with
  | one hthing =>
    have hread := hitem.yields hthing hrest false
    have hdone : (reader tokens (.many ((Parser.token .comma).skipLeft item))).Yields tokens indent
      ⟨false, rest⟩ ⟨false, rest⟩ (· = []) := yields_noMore hnext
    have hmore := (yields_sign hcomma (by decide) ended _).skipLeft hread
    refine (hmore.many_cons (length_lt_cons _ _ _) hdone).mono ?_
    rintro _ ⟨_, _, rfl, rfl, rfl⟩
    rfl
  | @cons first more second thing things hthing hsecond _ ih =>
    rw [List.append_assoc, List.cons_append]
    have hread := hitem.yields hthing (hitem.stops_comma (more ++ rest) hsecond) false
    have hmore := (yields_sign hcomma (by decide) ended _).skipLeft hread
    refine (hmore.many_cons (length_lt_cons _ _ _) (ih hsecond false)).mono ?_
    rintro _ ⟨_, _, rfl, rfl, rfl⟩
    rfl

/-- Items with commas between them, of which the later ones may be committed. -/
theorem yields_listing (hitem : ReadsItems tokens indent item Item stops)
    (hagain : ReadsItems tokens indent again Item stops) (h : Commas Item row things)
    (hrest : stops rest) (hnext : View.ahead ⟨false, rest⟩ ≠ .comma) (ended : Bool) :
    (reader tokens ((item.seq (.many ((Parser.token .comma).skipLeft again))).map
      fun (first, rest) ↦ first :: rest)).Yields tokens indent ⟨ended, row ++ rest⟩ ⟨false, rest⟩
        (· = things) := by
  cases h with
  | one hthing =>
    refine ((hitem.yields hthing hrest ended).seq (yields_noMore hnext)).map ?_
    rintro ⟨_, _⟩ ⟨rfl, rfl⟩
    rfl
  | @cons first more comma thing things hthing hcomma hmore =>
    rw [List.append_assoc, List.cons_append]
    have hread := hitem.yields hthing (hitem.stops_comma (more ++ rest) hcomma) ended
    refine (hread.seq (yields_more hagain hmore hrest hnext hcomma false)).map ?_
    rintro ⟨_, _⟩ ⟨rfl, rfl⟩
    rfl

/-- Any number of items, before what begins none. -/
theorem yields_optionalListing (hitem : ReadsItems tokens indent item Item stops)
    (h : Listed Item row things) (hrest : stops rest)
    (hnext : View.ahead ⟨false, rest⟩ ≠ .comma)
    (hnone : (reader tokens item).Declines tokens indent ⟨false, rest⟩) :
    (reader tokens (.optional (.commaSeparated item))).Yields tokens indent ⟨false, row ++ rest⟩
      ⟨false, rest⟩ (·.getD [] = things) := by
  cases h with
  | none =>
    refine ((hnone.seq _).map _).optional.mono ?_
    rintro _ rfl
    rfl
  | some hcommas =>
    refine (yields_listing hitem hitem.commit hcommas hrest hnext false).optional.mono ?_
    rintro _ ⟨_, rfl, rfl⟩
    rfl

/-! ### Aborts -/

variable {claim : Failure → Prop}

/-- Where its production aborts, so does a rule. -/
theorem aborts_rule {view : View} {rule : Rule}
    (h : (reader tokens (production rule)).Aborts tokens indent view claim) :
    (reader tokens (.rule rule)).Aborts tokens indent view claim := by
  intro s hs
  obtain ⟨failure, position, heq, hclaim⟩ := h s hs
  exact ⟨failure, position, (parse_rule tokens rule s).trans heq, hclaim⟩

/-- The first alternative aborts that does not fail recoverably. -/
theorem aborts_choice {view : View} {parser : Parser α} (before : List (Parser α))
    {after : List (Parser α)}
    (hbefore : ∀ other ∈ before, (reader tokens other).Declines tokens indent view)
    (h : (reader tokens parser).Aborts tokens indent view claim) :
    (reader tokens (.choice (before ++ parser :: after))).Aborts tokens indent view claim := by
  induction before with
  | nil => exact h.orElse _
  | cons first before ih =>
    rw [List.forall_mem_cons] at hbefore
    exact hbefore.1.orElse_aborts (ih hbefore.2)

/-- Behind a comma, items are read up to one that aborts. -/
theorem aborts_more (hitem : ReadsItems tokens indent item Item stops)
    (h : Fronts Item front things)
    (hlast : (reader tokens item).Aborts tokens indent ⟨false, rest⟩ claim) {comma : Token}
    (hcomma : comma.kind = .comma) (ended : Bool) :
    (reader tokens (.many ((Parser.token .comma).skipLeft item))).Aborts tokens indent
      ⟨ended, comma :: (front ++ rest)⟩ claim := by
  induction h generalizing comma ended with
  | nil => exact (((yields_sign hcomma (by decide) ended rest).seq_aborts hlast).map _).many
  | @cons first more second thing things hthing hsecond _ ih =>
    rw [List.append_assoc, List.cons_append]
    have hread := hitem.yields hthing (hitem.stops_comma (more ++ rest) hsecond) false
    exact ((yields_sign hcomma (by decide) ended _).skipLeft hread).many_aborts
      (length_lt_cons _ _ _) (ih hsecond false)

/-- A listing aborts where one of its items does. -/
theorem aborts_listing (hitem : ReadsItems tokens indent item Item stops)
    (hagain : ReadsItems tokens indent again Item stops) (h : Fronts Item front things)
    (hfirst : things = [] → (reader tokens item).Aborts tokens indent ⟨false, rest⟩ claim)
    (hlast : (reader tokens again).Aborts tokens indent ⟨false, rest⟩ claim) :
    (reader tokens ((item.seq (.many ((Parser.token .comma).skipLeft again))).map
      fun (first, rest) ↦ first :: rest)).Aborts tokens indent ⟨false, front ++ rest⟩ claim := by
  cases h with
  | nil => exact ((hfirst rfl).seq _).map _
  | @cons first more comma thing things hthing hcomma hmore =>
    rw [List.append_assoc, List.cons_append]
    have hread := hitem.yields hthing (hitem.stops_comma (more ++ rest) hcomma) false
    exact (hread.seq_aborts (aborts_more hagain hmore hlast hcomma false)).map _

end Grammar

end Offside
