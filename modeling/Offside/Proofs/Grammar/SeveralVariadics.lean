import Offside.Proofs.Grammar.Counting
import Offside.Proofs.Grammar.Offences
import Offside.Proofs.Grammar.RowReading
import Offside.Source.Scan

/-!
# The report of a second variadic pattern

A list or tuple that takes the rest several times fails recoverably, so that what it stands in has a
say in what is reported. A row that is a pattern up to that is not read to its end, and how it fails
follows from its offence (`Fares`): where a pattern must stand the failure is passed on, and where
one may be left out the row is read on as if none were there. A statement that binds the pattern
fails fatally in any case (`Grammar.failsFatally_of_isLoosePattern`). Where the offence is lost,
though, it reports only that another token was expected where a list or tuple begins
(`Grammar.failsFatally_of_first`).
-/

namespace Offside.Grammar

open Packrat Offside.Derivation

variable {tokens : Array Token} {indent : Nat} {α β γ δ : Type}

/-- Another token was expected where a list or tuple of the row begins. -/
def Mislaid (row : List Token) (failure : Failure) : Prop :=
  ∃ opening ∈ row, (opening.kind = .leftBracket ∨ opening.kind = .leftParen) ∧
    ∃ kind, failure = ⟨opening.location, .expectedToken kind opening.toTerminal⟩

/-- The failure reports the offence, or that another token was expected if the offence is lost. -/
def Reports (row : List Token) : Offence → Failure → Prop
  | .own expected, failure | .kept expected, failure => failure = expected
  | .lost _, failure => Mislaid row failure

/-! ### Rows that are not read to their ends -/

-- The token begins a list or tuple of the row.
private def BeginsIn (row : List Token) (token : Token) : Prop :=
  token ∈ row ∧ (token.kind = .leftBracket ∨ token.kind = .leftParen)

variable (tokens) in
-- The step does not get to the end of the row: it aborts where a list or tuple begins in the row,
-- or stops there.
private inductive Falters (step : Step α) (indent : Nat) (view : View) (row : List Token) :
    Prop where
  | aborts : step.Aborts tokens indent view (Mislaid row) → Falters step indent view row
  | stops {opening : Token} {later : List Token} : BeginsIn row opening →
      (opening :: later).length ≤ view.tokens.length →
      step.Yields tokens indent view ⟨false, opening :: later⟩ (fun _ ↦ True) →
      Falters step indent view row

variable (tokens) in
-- The step misses a list or tuple that begins the row.
private def Overlooks (step : Step α) (indent : Nat) (view : View) (row : List Token)
    (claim : Failure → Prop) : Prop :=
  (∃ opening later, view.tokens = opening :: later ∧ BeginsIn row opening) ∧
    step.Misses tokens indent view claim

variable (tokens) in
-- How a step fails where a pattern of the row offends that the step may still pass over.
private def Fails (step : Step α) (indent : Nat) (view : View) (row : List Token) :
    Offence → Prop
  | .own failure => Overlooks tokens step indent view row (· = failure)
  | .kept failure => step.Aborts tokens indent view (· = failure)
  | .lost _ => Overlooks tokens step indent view row (Mislaid row) ∨
    Falters tokens step indent view row

variable (tokens) in
-- How a step fails where a pattern of the row offends, once it is settled whether it is passed
-- over.
private def Blocks (step : Step α) (indent : Nat) (view : View) (row : List Token) :
    Offence → Prop
  | .own _ => False
  | .kept failure => step.Aborts tokens indent view (· = failure)
  | .lost _ => Falters tokens step indent view row

section Failing

variable {a : Step α} {b : Step β} {view next : View} {row more : List Token} {offence : Offence}
  {accepts : α → Prop}

private theorem Mislaid.mono {failure : Failure} (h : Mislaid row failure) (hsub : row ⊆ more) :
    Mislaid more failure := by
  obtain ⟨opening, hmem, hopening⟩ := h
  exact ⟨opening, hsub hmem, hopening⟩

private theorem misses_opening {opening : Token} {later : List Token} (h : BeginsIn row opening)
    {kind : TokenKind} (hbracket : kind ≠ .leftBracket) (hparen : kind ≠ .leftParen) :
    (Step.token kind).Misses tokens indent ⟨false, opening :: later⟩ (Mislaid row) := by
  have hkind : opening.kind ≠ kind := by
    obtain hkind | hkind := h.2
    · exact hkind ▸ hbracket.symm
    · exact hkind ▸ hparen.symm
  refine (Step.misses_token rfl hkind indent).mono ?_
  rintro _ rfl
  exact ⟨opening, h.1, h.2, kind, rfl⟩

private theorem Falters.mono (h : Falters tokens a indent view row) (hsub : row ⊆ more) :
    Falters tokens a indent view more := by
  cases h with
  | aborts h => exact .aborts (h.mono fun _ hmislaid ↦ hmislaid.mono hsub)
  | stops hopens hle h => exact .stops ⟨hsub hopens.1, hopens.2⟩ hle h

private theorem Falters.map (h : Falters tokens a indent view row) (f : α → β) :
    Falters tokens (Step.mapOutcome (.map f) a) indent view row := by
  cases h with
  | aborts h => exact .aborts (h.map f)
  | stops hopens hle h => exact .stops hopens hle (h.map fun _ _ ↦ trivial)

private theorem Falters.optional (h : Falters tokens a indent view row) :
    Falters tokens (Step.optional a) indent view row := by
  cases h with
  | aborts h => exact .aborts h.optional
  | stops hopens hle h => exact .stops hopens hle (h.optional.mono fun _ _ ↦ trivial)

private theorem falters_seq (ha : a.Yields tokens indent view next accepts)
    (hle : next.tokens.length ≤ view.tokens.length) (hb : Falters tokens b indent next row) :
    Falters tokens (Step.seq a b) indent view row := by
  cases hb with
  | aborts h => exact .aborts (ha.seq_aborts h)
  | stops hopens hlt h =>
    exact .stops hopens (Nat.le_trans hlt hle) ((ha.seq h).mono fun _ _ ↦ trivial)

private theorem Overlooks.optional {claim : Failure → Prop} {list : List Token}
    (h : Overlooks tokens a indent ⟨false, list⟩ row claim) :
    Falters tokens (Step.optional a) indent ⟨false, list⟩ row := by
  obtain ⟨⟨opening, later, rfl, hopens⟩, hmisses⟩ := h
  exact .stops hopens (Nat.le_refl _) (hmisses.declines.optional.mono fun _ _ ↦ trivial)

/-! ### What settles an offence -/

private theorem Fails.optional {list : List Token}
    (h : Fails tokens a indent ⟨false, list⟩ row offence) :
    Blocks tokens (Step.optional a) indent ⟨false, list⟩ row (offence.within true) := by
  cases offence with
  | own failure => exact Overlooks.optional h
  | kept failure => exact Step.Aborts.optional h
  | lost failure => exact Or.elim h Overlooks.optional Falters.optional

private theorem Fails.commit (h : Fails tokens a indent view row offence) :
    Blocks tokens (Step.mapOutcome .commit a) indent view row (offence.within false) := by
  cases offence with
  | own failure => exact Step.Misses.commit h.2
  | kept failure => exact Step.Aborts.commit h
  | lost failure =>
    obtain hmisses | haborts | ⟨hopens, hle, hstops⟩ := h
    · exact .aborts hmisses.2.commit
    · exact .aborts haborts.commit
    · exact .stops hopens hle hstops.commit

private theorem Blocks.ne_own (h : Blocks tokens a indent view row offence) (failure : Failure) :
    offence ≠ .own failure := by
  rintro rfl
  exact h

private theorem Blocks.mono (h : Blocks tokens a indent view row offence) (hsub : row ⊆ more) :
    Blocks tokens a indent view more offence := by
  cases offence with
  | own failure => exact h
  | kept failure => exact h
  | lost failure => exact Falters.mono h hsub

private theorem Blocks.map (h : Blocks tokens a indent view row offence) (f : α → β) :
    Blocks tokens (Step.mapOutcome (.map f) a) indent view row offence := by
  cases offence with
  | own failure => exact h
  | kept failure => exact Step.Aborts.map h f
  | lost failure => exact Falters.map h f

private theorem blocks_seq (ha : a.Yields tokens indent view next accepts)
    (hle : next.tokens.length ≤ view.tokens.length)
    (hb : Blocks tokens b indent next row offence) :
    Blocks tokens (Step.seq a b) indent view row offence := by
  cases offence with
  | own failure => exact hb
  | kept failure => exact ha.seq_aborts hb
  | lost failure => exact falters_seq ha hle hb

private theorem Blocks.skip (h : Blocks tokens a indent view row offence) (kind : TokenKind)
    (hbracket : kind ≠ .leftBracket) (hparen : kind ≠ .leftParen) :
    (Step.mapOutcome (.map Prod.fst)
      (Step.seq a (Step.mapOutcome .commit (Step.token kind)))).Aborts tokens indent view
        (Reports row offence) := by
  cases offence with
  | own failure => exact h.elim
  | kept failure => exact (Step.Aborts.seq h _).map _
  | lost failure =>
    obtain h | ⟨hopens, hle, h⟩ := h
    · exact (h.seq _).map _
    · exact (h.seq_aborts (misses_opening hopens hbracket hparen).commit).map _

-- A comma behind the row is missed if the row is not read to its end, without being due.
private theorem Blocks.fails_of_comma (h : Blocks tokens a indent view row offence)
    (hhead : ∃ opening later, view.tokens = opening :: later ∧ BeginsIn row opening) (b : Step β)
    (c : Step γ) (verdict : α × β → Outcome δ) :
    Fails tokens (Step.check (Step.mapOutcome (.map Prod.fst) (Step.seq (Step.seq a
      (Step.mapOutcome (.map Prod.snd) (Step.seq (Step.token .comma) b))) c)) verdict)
        indent view row offence := by
  cases offence with
  | own failure => exact h.elim
  | kept failure => exact (((Step.Aborts.seq h _).seq _).map _).check _
  | lost failure =>
    obtain h | @⟨opening, later, hopens, -, h⟩ := h
    · exact .inr (.aborts ((((h.seq _).seq _).map _).check _))
    · -- Nothing is committed yet where the comma is missed.
      have hcomma : (Step.token .comma).Misses tokens indent ⟨false, opening :: later⟩
          (Mislaid row) := misses_opening hopens (by decide) (by decide)
      exact .inl ⟨hhead, (((h.seq_misses ((hcomma.seq _).map _)).seq _).map _).check _⟩

-- What is settled around a pattern is no failure that may be passed over.
private theorem fails_of_aborts (hown : ∀ failure, offence ≠ .own failure)
    (h : a.Aborts tokens indent view (Reports row offence)) :
    Fails tokens a indent view row offence := by
  cases offence with
  | own failure => exact absurd rfl (hown failure)
  | kept failure => exact h
  | lost failure => exact .inr (.aborts h)

private theorem Blocks.fails (h : Blocks tokens a indent view row offence) :
    Fails tokens a indent view row offence := by
  cases offence with
  | own failure => exact h.elim
  | kept failure => exact h
  | lost failure => exact .inr h

private theorem Blocks.optional (h : Blocks tokens a indent view row offence) :
    Blocks tokens (Step.optional a) indent view row offence := by
  cases offence with
  | own failure => exact h
  | kept failure => exact Step.Aborts.optional h
  | lost failure => exact Falters.optional h

private theorem Fails.congr {other : Step α} (h : Fails tokens a indent view row offence)
    (heq : ∀ s : State, s.Faces ⟨tokens, false⟩ indent view →
      other ⟨tokens, false⟩ s = a ⟨tokens, false⟩ s) :
    Fails tokens other indent view row offence := by
  have hmisses {claim : Failure → Prop} (h : a.Misses tokens indent view claim) :
      other.Misses tokens indent view claim := fun s hs ↦ heq s hs ▸ h s hs
  have haborts {claim : Failure → Prop} (h : a.Aborts tokens indent view claim) :
      other.Aborts tokens indent view claim := fun s hs ↦ heq s hs ▸ h s hs
  cases offence with
  | own failure => exact ⟨h.1, hmisses h.2⟩
  | kept failure => exact haborts h
  | lost failure =>
    obtain hmissed | h | ⟨hopens, hle, h⟩ := h
    · exact .inl ⟨hmissed.1, hmisses hmissed.2⟩
    · exact .inr (.aborts (haborts h))
    · exact .inr (.stops hopens hle fun s hs ↦ heq s hs ▸ h s hs)

end Failing

/-! ### Listings -/

section Listing

variable {item : Parser α} {Item : List Token → α → Prop} {stops : List Token → Prop}
  {row front rest : List Token} {things : List α} {offence : Offence}

private theorem BeginsIn.ne_comma {opening : Token} (h : BeginsIn row opening) :
    opening.kind ≠ .comma := by
  obtain hkind | hkind := h.2
  · exact hkind ▸ by decide
  · exact hkind ▸ by decide

private theorem blocks_more (hitem : ReadsItems tokens indent item Item stops)
    (h : Fronts Item front things)
    (hlast : Blocks tokens (reader tokens item) indent ⟨false, rest⟩ row offence) {comma : Token}
    (hcomma : comma.kind = .comma) (ended : Bool) :
    Blocks tokens (reader tokens (.many ((Parser.token .comma).skipLeft item))) indent
      ⟨ended, comma :: (front ++ rest)⟩ row offence := by
  cases offence with
  | own failure => exact hlast
  | kept failure => exact aborts_more hitem h hlast hcomma ended
  | lost failure =>
    obtain hlast | @⟨opening, later, hopens, hle, hlast⟩ := hlast
    · exact .aborts (aborts_more hitem h hlast hcomma ended)
    · have hlength : (opening :: later).length ≤ (comma :: (front ++ rest)).length := by
        simp only [List.length_cons, List.length_append] at hle ⊢
        omega
      refine .stops hopens hlength ?_
      clear hlength
      induction h generalizing comma ended with
      | nil =>
        have hdone : (reader tokens (.many ((Parser.token .comma).skipLeft item))).Yields tokens
            indent ⟨false, opening :: later⟩ ⟨false, opening :: later⟩ (· = []) :=
          yields_noMore hopens.ne_comma
        have hmore := (yields_sign hcomma (by decide) ended rest).skipLeft hlast
        exact (hmore.many_cons (Nat.lt_succ_of_le hle) hdone).mono fun _ _ ↦ trivial
      | @cons first more second thing things hthing hsecond _ ih =>
        rw [List.append_assoc, List.cons_append]
        have hread := hitem.yields hthing (hitem.stops_comma (more ++ rest) hsecond) false
        have hmore := (yields_sign hcomma (by decide) ended _).skipLeft hread
        refine (hmore.many_cons ?_ (ih hsecond false)).mono fun _ _ ↦ trivial
        simp only [List.length_cons, List.length_append]
        omega

private theorem Fails.listing {view : View} {again : Parser α}
    (h : Fails tokens (reader tokens item) indent view row offence) :
    Fails tokens (reader tokens ((item.seq (.many ((Parser.token .comma).skipLeft again))).map
      fun (first, rest) ↦ first :: rest)) indent view row offence := by
  cases offence with
  | own failure => exact ⟨h.1, (h.2.seq _).map _⟩
  | kept failure => exact (Step.Aborts.seq h _).map _
  | lost failure =>
    obtain h | h | ⟨hopens, hle, h⟩ := h
    · exact .inl ⟨h.1, (h.2.seq _).map _⟩
    · exact .inr (.aborts ((h.seq _).map _))
    · exact .inr (.stops hopens hle
        ((h.seq (yields_noMore hopens.ne_comma)).map fun _ _ ↦ trivial))

end Listing

/-! ### How patterns fare -/

-- The tokens begin no pattern.
private def Unbegun (rest : List Token) : Prop := begins .pattern (View.ahead ⟨false, rest⟩) = false

variable (tokens indent) in
-- How the parser fares with a row for the pattern: it reads the pattern, or fails as what offends
-- in it makes it fail.
private def Fares (parser : Parser Pattern) (inner : Pattern) (row rest : List Token)
    (ended : Bool) : Prop :=
  match inner.offence? with
  | none => (reader tokens parser).Yields tokens indent ⟨ended, row ++ rest⟩ ⟨false, rest⟩
      (· = inner)
  | some offence => Fails tokens (reader tokens parser) indent ⟨ended, row ++ rest⟩ row offence

variable (tokens indent) in
-- How the rule for patterns fares with the rows up to a length.
private def FaresTo (bound : Nat) : Prop :=
  ∀ {row : List Token} {inner : Pattern}, IsLoosePattern row inner → row.length ≤ bound →
    ∀ {rest : List Token}, Unbegun rest → ∀ ended : Bool,
      Fares tokens indent pattern inner row rest ended

section Fares

variable {bound : Nat} {row rest : List Token} {inner : Pattern} {patterns : List Pattern}
  {offence : Offence} {ended : Bool}

private theorem unbegun_of_comma {comma : Token} (h : comma.kind = .comma) (rest : List Token) :
    Unbegun (comma :: rest) := by
  rw [Unbegun, View.ahead_cons, h]
  rfl

private theorem unbegun_of_closing {closing : Token}
    (h : closing.kind = .rightBracket ∨ closing.kind = .rightParen) (rest : List Token) :
    Unbegun (closing :: rest) ∧ View.ahead ⟨false, closing :: rest⟩ ≠ .comma := by
  unfold Unbegun
  rw [View.ahead_cons]
  obtain h | h := h <;> rw [h] <;> exact ⟨rfl, by decide⟩

private theorem Fares.yields {parser : Parser Pattern}
    (h : Fares tokens indent parser inner row rest ended) (hnone : inner.offence? = none) :
    (reader tokens parser).Yields tokens indent ⟨ended, row ++ rest⟩ ⟨false, rest⟩ (· = inner) := by
  unfold Fares at h
  rwa [hnone] at h

private theorem Fares.fails {parser : Parser Pattern}
    (h : Fares tokens indent parser inner row rest ended) (hsome : inner.offence? = some offence) :
    Fails tokens (reader tokens parser) indent ⟨ended, row ++ rest⟩ row offence := by
  unfold Fares at h
  rwa [hsome] at h

private theorem FaresTo.reads (h : FaresTo tokens indent bound) :
    ReadsItems tokens indent pattern (fun row inner ↦
      (IsLoosePattern row inner ∧ row.length ≤ bound) ∧ inner.offence? = none) Unbegun :=
  ⟨fun rest hcomma ↦ unbegun_of_comma hcomma rest,
    fun hitem _ hrest ended ↦ (h hitem.1.1 hitem.1.2 hrest ended).yields hitem.2⟩

private theorem FaresTo.yields_listing (h : FaresTo tokens indent row.length)
    (hlisted : Listed IsLoosePattern row patterns) (hnone : listOffence? true patterns = none)
    (hrest : Unbegun rest) (hnext : View.ahead ⟨false, rest⟩ ≠ .comma) :
    (reader tokens (.optional (.commaSeparated pattern))).Yields tokens indent
      ⟨false, row ++ rest⟩ ⟨false, rest⟩ (·.getD [] = patterns) := by
  rw [listOffence?_eq_none] at hnone
  exact yields_optionalListing h.reads
    ((hlisted.within (Nat.le_refl _)).imp fun _ inner hmem hrow ↦ ⟨hrow, hnone inner hmem⟩)
    hrest hnext (declines_rule hrest)

private theorem unbegun_append {more : List Token} (hmore : ∀ sign ∈ more.head?, sign.kind = .comma)
    (hrest : Unbegun rest) : Unbegun (more ++ rest) := by
  cases more with
  | nil => exact hrest
  | cons comma more => exact unbegun_of_comma (hmore comma rfl) _

private theorem FaresTo.blocks_listing (h : FaresTo tokens indent row.length)
    (hlisted : Listed IsLoosePattern row patterns)
    (hoffence : listOffence? true patterns = some offence) (hrest : Unbegun rest) :
    Blocks tokens (reader tokens (.optional (.commaSeparated pattern))) indent
      ⟨false, row ++ rest⟩ row offence := by
  cases hlisted with
  | none => cases hoffence
  | some hcommas =>
    cases cut_of_listOffence? (hcommas.within (Nat.le_refl _)) hoffence with
    | @first part more inner inside hpart hinside hmore =>
      have hfails := (h hpart.1 hpart.2 (unbegun_append hmore hrest) false).fails hinside
      rw [List.append_assoc]
      exact hfails.listing.optional.mono (List.subset_append_left _ _)
    | @later head front part more comma first inner passed inside hfirst hnone hcomma hfront hpart
        hinside hmore =>
      have hbehind := unbegun_of_comma hcomma (front ++ (part ++ (more ++ rest)))
      have hread := (h hfirst.1 hfirst.2 hbehind false).yields hnone
      have hfails := (h hpart.1 hpart.2 (unbegun_append hmore hrest) false).fails hinside
      have hmany := blocks_more h.reads.commit hfront hfails.commit hcomma false
      have hle : (comma :: (front ++ (part ++ (more ++ rest)))).length ≤
          (head ++ comma :: (front ++ (part ++ (more ++ rest)))).length := by simp
      have hlisting := (blocks_seq hread hle hmany).map fun (first, rest) ↦ first :: rest
      simp only [List.append_assoc, List.cons_append]
      exact hlisting.optional.mono fun token hmem ↦ by simp [hmem]

private theorem Fares.pattern {parsers : TokenKind → Parser Pattern} {kind : TokenKind}
    (hparsers : production .pattern = .onKind parsers)
    (hkind : View.ahead ⟨ended, row ++ rest⟩ = kind)
    (h : Fares tokens indent (parsers kind) inner row rest ended) :
    Fares tokens indent pattern inner row rest ended := by
  have heq (s : State) (hs : s.Faces ⟨tokens, false⟩ indent ⟨ended, row ++ rest⟩) :
      reader tokens Grammar.pattern ⟨tokens, false⟩ s =
        reader tokens (parsers kind) ⟨tokens, false⟩ s := by
    refine (parse_rule tokens .pattern s).trans ?_
    rw [hparsers]
    change Step.onKind (fun kind ↦ reader tokens (parsers kind)) ⟨tokens, false⟩ s = _
    simp only [Step.onKind, hs.kind_current, hkind]
  unfold Fares at h ⊢
  split at h
  · exact fun s hs ↦ heq s hs ▸ h s hs
  · exact h.congr heq

private theorem fares_of_yields {parser : Parser Pattern} (hnone : inner.offence? = none)
    (h : (reader tokens parser).Yields tokens indent ⟨ended, row ++ rest⟩ ⟨false, rest⟩
      (· = inner)) : Fares tokens indent parser inner row rest ended := by
  unfold Fares
  rwa [hnone]

private theorem fares_of_fails {parser : Parser Pattern} (hsome : inner.offence? = some offence)
    (h : Fails tokens (reader tokens parser) indent ⟨ended, row ++ rest⟩ row offence) :
    Fares tokens indent parser inner row rest ended := by
  unfold Fares
  rwa [hsome]

-- Patterns that are read between brackets or parentheses offend if they take the rest several
-- times.
private theorem fares_check {contents : Parser β} {verdict : β → Outcome Pattern}
    {accepts : β → Prop} {build : Location → List Pattern → Pattern} {opening : Location}
    (hoffence : (build opening patterns).offence? = (severalVariadics? opening patterns).map .own)
    (hhead : ∃ opening later, row ++ rest = opening :: later ∧ BeginsIn row opening)
    (hread : (reader tokens contents).Yields tokens indent ⟨ended, row ++ rest⟩ ⟨false, rest⟩
      accepts)
    (hverdict : ∀ found, accepts found → verdict found = withOneVariadic build opening patterns) :
    Fares tokens indent (contents.check verdict) (build opening patterns) row rest ended := by
  cases hseveral : severalVariadics? opening patterns with
  | none =>
    rw [hseveral] at hoffence
    refine fares_of_yields hoffence (hread.check fun found hfound ↦ ⟨_, ?_, rfl⟩)
    rw [hverdict found hfound, withOneVariadic_of_none hseveral]
  | some failure =>
    rw [hseveral] at hoffence
    refine fares_of_fails hoffence ⟨hhead, hread.check_misses fun found hfound ↦ ⟨_, ?_, rfl⟩⟩
    rw [hverdict found hfound, withOneVariadic_of_some hseveral]

private theorem fares_list {opening closing : Token} (h : FaresTo tokens indent row.length)
    (hopening : opening.kind = .leftBracket) (hlisted : Listed IsLoosePattern row patterns)
    (hclosing : closing.kind = .rightBracket) :
    Fares tokens indent listPattern (.list opening.location patterns)
      (opening :: (row ++ [closing])) rest ended := by
  obtain ⟨hrest, hnext⟩ := unbegun_of_closing (.inl hclosing) rest
  have hrow : opening :: (row ++ [closing]) ++ rest = opening :: (row ++ closing :: rest) := by simp
  have hsign : (reader tokens (.token .leftBracket)).Yields tokens indent
      ⟨ended, opening :: (row ++ closing :: rest)⟩ ⟨false, row ++ closing :: rest⟩ (· = opening) :=
    yields_sign hopening (by decide) ended _
  cases hinside : listOffence? true patterns with
  | some offence =>
    have hoffence : (Pattern.list opening.location patterns).offence? = some offence := by
      rw [Pattern.offence?, hinside, Option.some_or]
    have hblocks := blocks_seq hsign (Nat.le_succ _) (h.blocks_listing hlisted hinside hrest)
    have haborts := (hblocks.mono (List.subset_cons_of_subset opening
      (List.subset_append_left row [closing]))).skip .rightBracket (by decide) (by decide)
    refine fares_of_fails hoffence ?_
    rw [hrow]
    exact fails_of_aborts hblocks.ne_own (haborts.check _)
  | none =>
    have hoffence : (Pattern.list opening.location patterns).offence? =
        (severalVariadics? opening.location patterns).map .own := by
      rw [Pattern.offence?, hinside, Option.none_or]
    have hread := (hsign.seq (h.yields_listing hlisted hinside hrest hnext)).skip
      (yields_sign hclosing (by decide) false rest).commit
    rw [← hrow] at hread
    refine fares_check hoffence ⟨opening, _, rfl, List.mem_cons_self, .inl hopening⟩ hread ?_
    rintro ⟨_, _⟩ ⟨rfl, rfl⟩
    rfl

section Tuple

variable {opening comma closing : Token} {head tail : List Token} {first : Pattern}

private theorem tuple_append (opening comma closing : Token) (head tail rest : List Token) :
    opening :: (head ++ comma :: (tail ++ [closing])) ++ rest =
      opening :: (head ++ comma :: (tail ++ closing :: rest)) := by
  simp

-- A tuple fails as its first pattern does.
private theorem fares_tuple_of_first {inside : Offence} (hopening : opening.kind = .leftParen)
    (h : Fares tokens indent Grammar.pattern first head (comma :: (tail ++ closing :: rest)) false)
    (hinside : first.offence? = some inside) :
    Fares tokens indent tuplePattern (.tuple opening.location (first :: patterns))
      (opening :: (head ++ comma :: (tail ++ [closing]))) rest ended := by
  have hoffence : (Pattern.tuple opening.location (first :: patterns)).offence? =
      some (inside.within false) := by
    rw [Pattern.offence?, tupleOffence?, hinside, Option.map_some, Option.some_or, Option.some_or]
  have hsign : (reader tokens (.token .leftParen)).Yields tokens indent
      ⟨ended, opening :: (head ++ comma :: (tail ++ closing :: rest))⟩
      ⟨false, head ++ comma :: (tail ++ closing :: rest)⟩ (· = opening) :=
    yields_sign hopening (by decide) ended _
  have hblocks := blocks_seq hsign (Nat.le_succ _) (h.fails hinside).commit
  have hsub : head ⊆ opening :: (head ++ comma :: (tail ++ [closing])) :=
    List.subset_cons_of_subset opening (List.subset_append_left head _)
  refine fares_of_fails hoffence ?_
  rw [tuple_append]
  exact (hblocks.mono hsub).fails_of_comma
    ⟨opening, _, rfl, List.mem_cons_self, .inr hopening⟩ _ _ _

-- Behind its first pattern, a tuple fails as a list does.
private theorem fares_tuple_of_later (h : FaresTo tokens indent tail.length)
    (hbefore : (reader tokens ((Parser.token .leftParen).seq Grammar.pattern.commit)).Yields tokens
      indent ⟨ended, opening :: (head ++ comma :: (tail ++ closing :: rest))⟩
      ⟨false, comma :: (tail ++ closing :: rest)⟩ (fun found ↦ found.1 = opening ∧ found.2 = first))
    (hnone : first.offence? = none) (hcomma : comma.kind = .comma)
    (hlisted : Listed IsLoosePattern tail patterns) (hclosing : closing.kind = .rightParen)
    (hinside : listOffence? true patterns = some offence) :
    Fares tokens indent tuplePattern (.tuple opening.location (first :: patterns))
      (opening :: (head ++ comma :: (tail ++ [closing]))) rest ended := by
  have hoffence : (Pattern.tuple opening.location (first :: patterns)).offence? =
      some offence := by
    rw [Pattern.offence?, tupleOffence?, hnone, Option.map_none, Option.none_or, hinside,
      Option.some_or]
  have hsecond : (reader tokens (.token .comma)).Yields tokens indent
      ⟨false, comma :: (tail ++ closing :: rest)⟩ ⟨false, tail ++ closing :: rest⟩ (· = comma) :=
    yields_sign hcomma (by decide) false _
  have hmore := (blocks_seq hsecond (Nat.le_succ _)
    (h.blocks_listing hlisted hinside (unbegun_of_closing (.inr hclosing) rest).1)).map Prod.snd
  have hle : (comma :: (tail ++ closing :: rest)).length ≤
      (opening :: (head ++ comma :: (tail ++ closing :: rest))).length := by
    simp only [List.length_cons, List.length_append]
    omega
  have hblocks := blocks_seq hbefore hle hmore
  have hsub : tail ⊆ opening :: (head ++ comma :: (tail ++ [closing])) :=
    fun token hmem ↦ by simp [hmem]
  have haborts := (hblocks.mono hsub).skip .rightParen (by decide) (by decide)
  refine fares_of_fails hoffence ?_
  rw [tuple_append]
  exact fails_of_aborts hblocks.ne_own (haborts.check _)

private theorem fares_tuple (h : FaresTo tokens indent (head.length + tail.length))
    (hopening : opening.kind = .leftParen) (hfirst : IsLoosePattern head first)
    (hcomma : comma.kind = .comma) (hlisted : Listed IsLoosePattern tail patterns)
    (hclosing : closing.kind = .rightParen) :
    Fares tokens indent tuplePattern (.tuple opening.location (first :: patterns))
      (opening :: (head ++ comma :: (tail ++ [closing]))) rest ended := by
  have htail : FaresTo tokens indent tail.length :=
    fun hrow hle ↦ h hrow (Nat.le_trans hle (Nat.le_add_left _ _))
  have hfares := h hfirst (Nat.le_add_right _ _)
    (unbegun_of_comma hcomma (tail ++ closing :: rest)) false
  cases hown : first.offence? with
  | some inside => exact fares_tuple_of_first hopening hfares hown
  | none =>
    have hbefore := (yields_sign hopening (by decide) ended _).seq (hfares.yields hown).commit
    cases hinside : listOffence? true patterns with
    | some offence => exact fares_tuple_of_later htail hbefore hown hcomma hlisted hclosing hinside
    | none =>
      have hoffence : (Pattern.tuple opening.location (first :: patterns)).offence? =
          (severalVariadics? opening.location (first :: patterns)).map .own := by
        rw [Pattern.offence?, tupleOffence?, hown, Option.map_none, Option.none_or, hinside,
          Option.none_or]
      obtain ⟨hrest, hnext⟩ := unbegun_of_closing (.inr hclosing) rest
      have hread := (hbefore.seq ((yields_sign hcomma (by decide) false _).skipLeft
        (htail.yields_listing hlisted hinside hrest hnext))).skip
          (yields_sign hclosing (by decide) false rest).commit
      rw [← tuple_append] at hread
      refine fares_check hoffence ⟨opening, _, rfl, List.mem_cons_self, .inr hopening⟩ hread ?_
      rintro ⟨⟨_, _⟩, _⟩ ⟨⟨rfl, rfl⟩, rfl⟩
      rfl

end Tuple

private theorem fares_variadic {periods : Token} (hperiods : periods.kind = .doublePeriod)
    (hrest : Unbegun rest) :
    Fares tokens indent variadicPattern (.variadic periods.location none) [periods] rest ended := by
  have hnone : (reader tokens Grammar.pattern).Declines tokens indent ⟨false, rest⟩ :=
    declines_rule hrest
  refine fares_of_yields rfl (((yields_sign hperiods (by decide) ended rest).seq
    hnone.optional).map ?_)
  rintro ⟨_, _⟩ ⟨rfl, rfl⟩
  rfl

private theorem fares_variadicInner {periods : Token} (hperiods : periods.kind = .doublePeriod)
    (h : Fares tokens indent Grammar.pattern inner row rest false) :
    Fares tokens indent variadicPattern (.variadic periods.location (some inner)) (periods :: row)
      rest ended := by
  have hsign : (reader tokens (.token .doublePeriod)).Yields tokens indent
      ⟨ended, periods :: (row ++ rest)⟩ ⟨false, row ++ rest⟩ (· = periods) :=
    yields_sign hperiods (by decide) ended _
  cases hinside : inner.offence? with
  | none =>
    have hoffence : (Pattern.variadic periods.location (some inner)).offence? = none := by
      rw [Pattern.offence?, innerOffence?, hinside, Option.map_none]
    refine fares_of_yields hoffence ((hsign.seq (h.yields hinside).optional).map ?_)
    rintro ⟨_, _⟩ ⟨rfl, _, rfl, rfl⟩
    rfl
  | some inside =>
    have hoffence : (Pattern.variadic periods.location (some inner)).offence? =
        some (inside.within true) := by
      rw [Pattern.offence?, innerOffence?, hinside, Option.map_some]
    have hblocks := blocks_seq hsign (Nat.le_succ _) (h.fails hinside).optional
    exact fares_of_fails hoffence
      ((hblocks.mono (List.subset_cons_self periods row)).map _).fails

-- A row that is a pattern up to the number of variadic ones is read, or fails as the first list or
-- tuple does that offends.
private theorem fares (h : IsLoosePattern row inner) (hrest : Unbegun rest) (ended : Bool) :
    Fares tokens indent Grammar.pattern inner row rest ended := by
  -- By induction on the length of the row, since every inner pattern stands in a shorter one.
  induction hlength : row.length using Nat.strongRecOn generalizing row inner rest ended with
  | ind n ih =>
    have hinner {bound : Nat} (hbound : bound < n) : FaresTo tokens indent bound :=
      fun hrow hle _ hrest ended ↦ ih _ (Nat.lt_of_le_of_lt hle hbound) hrow hrest ended rfl
    cases h with
    | name hword =>
      refine Fares.pattern rfl hword.kind (fares_of_yields rfl
        ((yields_word hword ended rest).map ?_))
      rintro _ rfl
      rfl
    | ignored hsign =>
      refine Fares.pattern rfl hsign (fares_of_yields rfl
        ((yields_sign hsign (by decide) ended rest).map ?_))
      rintro _ rfl
      rfl
    | list hopening hlisted hclosing =>
      simp only [List.length_cons, List.length_append, List.length_nil] at hlength
      exact .pattern rfl hopening (fares_list (hinner (by omega)) hopening hlisted hclosing)
    | tuple hopening hfirst hcomma hlisted hclosing =>
      simp only [List.length_cons, List.length_append, List.length_nil] at hlength
      exact .pattern rfl hopening
        (fares_tuple (hinner (by omega)) hopening hfirst hcomma hlisted hclosing)
    | variadic hperiods => exact .pattern rfl hperiods (fares_variadic hperiods hrest)
    | variadicInner hperiods hrow =>
      rw [List.length_cons] at hlength
      exact .pattern rfl hperiods (fares_variadicInner hperiods
        (hinner (Nat.lt_of_succ_le (Nat.le_of_eq hlength)) hrow (Nat.le_refl _) hrest false))

end Fares

/-! ### Statements -/

section Statements

variable {word sign : Token} {row later : List Token} {target : Pattern} {offence : Offence}

private theorem aborts_target {first kind : TokenKind} (hword : word.kind = first)
    (hfirst : first ≠ .endOfLine) (hrow : IsLoosePattern row target)
    (hoffence : target.offence? = some offence) (hsign : Unbegun (sign :: later))
    (hbracket : kind ≠ .leftBracket) (hparen : kind ≠ .leftParen) (ended : Bool) :
    (reader tokens (((Parser.token first).seq Grammar.pattern.commit).skip
      (.commit (.token kind)))).Aborts tokens indent ⟨ended, word :: (row ++ sign :: later)⟩
        (Reports row (offence.within false)) :=
  (blocks_seq (yields_sign hword hfirst ended _) (Nat.le_succ _)
    ((fares hrow hsign false).fails hoffence).commit).skip kind hbracket hparen

private theorem aborts_statement
    (hwords : word.kind = .kwLet ∧ sign.kind = .assign ∨ word.kind = .kwFor ∧ sign.kind = .kwIn)
    (hrow : IsLoosePattern row target) (hoffence : target.offence? = some offence) (ended : Bool) :
    (reader tokens (.rule .statement)).Aborts tokens indent
      ⟨ended, word :: (row ++ sign :: later)⟩ (Reports row (offence.within false)) := by
  apply aborts_rule
  obtain ⟨hlet, hassign⟩ | ⟨hfor, hin⟩ := hwords
  · have hsign : Unbegun (sign :: later) := by
      rw [Unbegun, View.ahead_cons, hassign]
      rfl
    have haborts : (reader tokens binding).Aborts tokens indent
        ⟨ended, word :: (row ++ sign :: later)⟩ (Reports row (offence.within false)) :=
      ((((aborts_target hlet (by decide) hrow hoffence hsign (by decide) (by decide) ended).seq
        _).seq _).map _).map _
    exact aborts_choice [] (List.forall_mem_nil _) haborts
  · have hsign : Unbegun (sign :: later) := by
      rw [Unbegun, View.ahead_cons, hin]
      rfl
    have haborts : (reader tokens forEach).Aborts tokens indent
        ⟨ended, word :: (row ++ sign :: later)⟩ (Reports row (offence.within false)) :=
      (((aborts_target hfor (by decide) hrow hoffence hsign (by decide) (by decide) ended).seq
        _).seq _).map _
    have hview : View.ahead ⟨ended, word :: (row ++ sign :: later)⟩ = .kwFor := hfor
    have hbefore : ∀ other ∈ [binding, assignment],
        (reader tokens other).Declines tokens indent ⟨ended, word :: (row ++ sign :: later)⟩ := by
      simp only [List.forall_mem_cons]
      exact ⟨declines_of_refuses hview (by rintro ⟨⟩), declines_assignment (by rw [hview]; decide),
        List.forall_mem_nil _⟩
    exact aborts_choice [binding, assignment] hbefore haborts

end Statements

/-- A statement whose pattern is one up to lists or tuples that take the rest several times fails
fatally. It reports the first of them to end, at its second variadic pattern, unless that stands
where a pattern may be left out: then the failure is lost, and it is reported that another token was
expected where a list or tuple of the pattern begins. -/
theorem failsFatally_of_isLoosePattern {tokens : Array Token} {memoize : Bool} {s : State}
    (hs : Filled ⟨tokens, memoize⟩ s.table) {word sign : Token} {row later : List Token}
    {target : Pattern}
    (hwords : word.kind = .kwLet ∧ sign.kind = .assign ∨ word.kind = .kwFor ∧ sign.kind = .kwIn)
    (hrest : tokens.toList.drop s.position = word :: (row ++ sign :: later))
    (hrow : IsLoosePattern row target) (hseveral : ¬ IsPattern row target) :
    ∃ offence, target.offence? = some offence ∧ Offends offence.failure target ∧
      ∃ failure, FailsFatally ⟨tokens, memoize⟩ s .statement failure ∧
        Reports row offence failure := by
  cases hoffence : target.offence? with
  | none => exact absurd (isPattern_iff.2 ⟨hrow, hoffence⟩) hseveral
  | some offence =>
    obtain ⟨failure, stop, hparse, hreports⟩ :=
      aborts_statement hwords hrow hoffence _ s ⟨rfl, hrest, rfl⟩
    refine ⟨offence, rfl, offends_of_offence? hoffence, failure, ⟨stop, ?_⟩, ?_⟩
    · exact (answers_iff tokens hs.sound).2 hparse
    · cases offence <;> exact hreports

-- The tokens that bind a list that takes the rest twice.
private def bindingTokens : List Token :=
  [⟨⟨.kwLet, .none⟩, .concrete "f" 1 1 0⟩, ⟨⟨.leftBracket, .none⟩, .concrete "f" 1 5 4⟩,
    ⟨⟨.doublePeriod, .none⟩, .concrete "f" 1 6 5⟩, ⟨⟨.comma, .none⟩, .concrete "f" 1 8 7⟩,
    ⟨⟨.doublePeriod, .none⟩, .concrete "f" 1 10 9⟩, ⟨⟨.rightBracket, .none⟩, .concrete "f" 1 12 11⟩,
    ⟨⟨.assign, .none⟩, .concrete "f" 1 14 13⟩]

/-- A list that takes the rest twice is reported where it does so for the second time. -/
theorem failsFatally_of_isLoosePattern_list :
    FailsFatally ⟨bindingTokens.toArray, true⟩ ⟨0, [], .empty⟩ .statement
      ⟨.concrete "f" 1 10 9, .severalVariadics (.concrete "f" 1 5 4)⟩ := by
  have hrest : bindingTokens.toArray.toList.drop 0 =
      bindingTokens[0] :: ((bindingTokens.drop 1).take 5 ++ bindingTokens[6] :: []) := rfl
  have hrow : IsLoosePattern ((bindingTokens.drop 1).take 5) (.list (.concrete "f" 1 5 4)
      [.variadic (.concrete "f" 1 6 5) none, .variadic (.concrete "f" 1 10 9) none]) :=
    .list rfl (.some (.cons (.variadic rfl) rfl (.one (.variadic rfl)))) rfl
  obtain ⟨offence, hoffence, -, failure, hfatal, hreports⟩ :=
    failsFatally_of_isLoosePattern (s := ⟨0, [], .empty⟩) .empty (.inl ⟨rfl, rfl⟩) hrest hrow
      fun h ↦ nomatch (isPattern_iff.1 h).2
  cases hoffence
  cases hreports
  exact hfatal

-- The tokens of a list that takes the rest twice, and stands first in another list.
private def nestedRow : List Token :=
  [⟨⟨.leftBracket, .none⟩, .concrete "f" 1 5 4⟩, ⟨⟨.leftBracket, .none⟩, .concrete "f" 1 6 5⟩,
    ⟨⟨.doublePeriod, .none⟩, .concrete "f" 1 7 6⟩, ⟨⟨.comma, .none⟩, .concrete "f" 1 9 8⟩,
    ⟨⟨.doublePeriod, .none⟩, .concrete "f" 1 11 10⟩,
    ⟨⟨.rightBracket, .none⟩, .concrete "f" 1 13 12⟩,
    ⟨⟨.rightBracket, .none⟩, .concrete "f" 1 14 13⟩]

private def nestedPattern : Pattern :=
  .list (.concrete "f" 1 5 4) [.list (.concrete "f" 1 6 5)
    [.variadic (.concrete "f" 1 7 6) none, .variadic (.concrete "f" 1 11 10) none]]

-- The tokens of a statement that binds the pattern.
private def nestedTokens : List Token :=
  ⟨⟨.kwLet, .none⟩, .concrete "f" 1 1 0⟩ :: (nestedRow ++
    [⟨⟨.assign, .none⟩, .concrete "f" 1 16 15⟩, ⟨⟨.integer, .integer 1⟩, .concrete "f" 1 18 17⟩,
      ⟨⟨.endOfLine, .none⟩, .concrete "f" 1 19 18⟩, ⟨⟨.endOfInput, .none⟩, .concrete "f" 2 1 19⟩])

private theorem eq_of_offends {failure : Failure} (h : Offends failure nestedPattern) :
    failure = ⟨.concrete "f" 1 11 10, .severalVariadics (.concrete "f" 1 6 5)⟩ := by
  obtain h | _ | ⟨hmem, h⟩ := h
  · cases h
  · rw [List.mem_singleton] at hmem
    subst hmem
    obtain h | _ | ⟨hmem, h⟩ := h
    · cases h
      rfl
    · simp only [List.mem_cons, List.not_mem_nil, or_false] at hmem
      obtain rfl | rfl := hmem <;> cases h

/-- A list that takes the rest twice is not reported where it stands first in another list: it is
passed over, and the other list is to end where it begins. -/
theorem failsFatally_of_first :
    ∃ word row sign later target, Token.ofSource "f" "let [[.., ..]] = 1\n" =
        .ok (word :: (row ++ sign :: later)) ∧
      word.kind = .kwLet ∧ sign.kind = .assign ∧ IsLoosePattern row target ∧
      ¬ IsPattern row target ∧
      FailsFatally ⟨(word :: (row ++ sign :: later)).toArray, true⟩ ⟨0, [], .empty⟩ .statement
        ⟨.concrete "f" 1 6 5, .expectedToken .rightBracket ⟨.leftBracket, .none⟩⟩ ∧
      ∀ failure, Offends failure target →
        ¬ FailsFatally ⟨(word :: (row ++ sign :: later)).toArray, true⟩ ⟨0, [], .empty⟩ .statement
          failure := by
  have htokens : Token.ofSource "f" "let [[.., ..]] = 1\n" = .ok nestedTokens := by
    decide +kernel
  have hrow : IsLoosePattern nestedRow nestedPattern :=
    .list rfl (.some (.one (.list rfl (.some (.cons (.variadic rfl) rfl (.one (.variadic rfl))))
      rfl))) rfl
  have hfatal : FailsFatally ⟨nestedTokens.toArray, true⟩ ⟨0, [], .empty⟩ .statement
      ⟨.concrete "f" 1 6 5, .expectedToken .rightBracket ⟨.leftBracket, .none⟩⟩ :=
    failsFatally_of_isFatal (by decide +kernel)
  have hseveral : ¬ IsPattern nestedRow nestedPattern := by
    intro h
    have hnone := (isPattern_iff.1 h).2
    rw [show nestedPattern.offence? = some (.lost ⟨.concrete "f" 1 11 10,
      .severalVariadics (.concrete "f" 1 6 5)⟩) from rfl] at hnone
    cases hnone
  refine ⟨_, nestedRow, _, _, nestedPattern, htokens, rfl, rfl, hrow, hseveral, hfatal, ?_⟩
  rintro failure hoffends ⟨_, _, hparse, _⟩
  obtain ⟨_, _, hactual, _⟩ := hfatal
  have heq := hactual.symm.trans hparse
  rw [eq_of_offends hoffends] at heq
  cases heq

end Offside.Grammar
