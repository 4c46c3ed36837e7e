import Offside.Proofs.Packrat.Acceptance
import Offside.Proofs.Packrat.Frame

/-!
# Where failures leave the position

A step rewinds if its recoverable failures leave the position where the step began, and it
withdraws if its fatal ones do. Sequences put the position back themselves; the other combinations
do so on some of their exits and rely on their parts on the rest. Of a parser it counts only that,
where an item is demanded, finding none leaves the position (`Parser.Careful`): then it rewinds if
the rules do (`Parser.run_rewinds`). A fatal failure leaves the position unless it comes from
inside a repetition or a block (`Parser.Contained`, `Parser.run_withdraws`).
-/

namespace Offside.Packrat

variable {α β : Type} {input : Input} {P : Table → Prop}

namespace Step

/-- A recoverable failure of the step leaves the position. -/
def Rewinds (P : Table → Prop) (input : Input) (step : Step α) : Prop :=
  ∀ ⦃s s' : State⦄ ⦃failure : Failure⦄, P s.table → step input s = .ok (.recoverable failure, s') →
    s'.position = s.position

/-- A fatal failure of the step leaves the position. -/
def Withdraws (P : Table → Prop) (input : Input) (step : Step α) : Prop :=
  ∀ ⦃s s' : State⦄ ⦃failure : Failure⦄, P s.table → step input s = .ok (.fatal failure, s') →
    s'.position = s.position

/-- A success of the step without an item leaves the position. -/
def Idles (input : Input) (step : Step (List α)) : Prop :=
  ∀ ⦃s s' : State⦄, step input s = .ok (.ok [], s') → s'.position = s.position

variable {a : Step α} {b : Step β}

/-! ### Successes without an item -/

/-- An outcome that is changed is the change of one of the step. -/
theorem mapOutcome_eq_ok {f : Outcome α → Outcome β} {s s' : State} {result : Outcome β} :
    mapOutcome f a input s = .ok (result, s') ↔
      ∃ outcome, a input s = .ok (outcome, s') ∧ f outcome = result := by
  unfold mapOutcome
  rcases a input s with fault | ⟨outcome, m⟩
  · simp
  · constructor
    · intro h
      cases h
      exact ⟨outcome, rfl, rfl⟩
    · rintro ⟨_, h, rfl⟩
      cases h
      rfl

private theorem idles_many : (many a).Idles input := by
  intro s s' h
  unfold many at h
  cases hallowed : input.attempts s.position with
  | zero => simp [hallowed, repeated] at h
  | succ allowed =>
    rw [hallowed] at h
    unfold repeated at h
    split at h
    · cases h
    · cases h
      rfl
    · cases h
    · split at h
      · simp at h
      · obtain ⟨rest, -, hcons⟩ := map_eq_ok.1 h
        cases hcons

private theorem idles_many1 : (many1 a).Idles input := by
  intro s s' h
  obtain ⟨items, m, -, hitems⟩ := bind_eq_ok.1 (atomic_eq_ok.1 h)
  split at hitems
  · exact absurd hitems fail_ne_ok
  · next hne =>
    cases hitems
    simp at hne

private theorem idles_nonEmpty (what : String) (step : Step (List α)) :
    (nonEmpty what step).Idles input := by
  intro s s' h
  exact absurd rfl (nonEmpty_eq_ok.1 h).1

/-- A block closes where it stands unless it holds no item. -/
theorem idles_block (locate : α → Location) : (block locate a).Idles input := by
  intro s s' h
  unfold block at h
  dsimp only at h
  split at h
  · cases h
  · split at h
    · cases h
    · split at h
      · cases h
      · generalize aligned _ _ _ _ _ _ = lines at h
        rcases lines with fault | ⟨⟨_ | ⟨item, items⟩⟩ | failure | failure, m⟩ <;> cases h
        rfl

/-! ### Recoverable failures -/

private theorem rewinds_failAt (token : Token) (problem : Terminal → Problem) :
    (failAt (α := α) token problem).Rewinds P input := by
  intro s s' failure hP h
  cases h
  rfl

private theorem rewinds_fail (problem : Terminal → Problem) :
    (fail (α := α) problem).Rewinds P input := by
  intro s s' failure hP h
  exact rewinds_failAt _ _ hP h

private theorem rewinds_token (kind : TokenKind) : (token kind).Rewinds P input := by
  intro s s' failure hP h
  unfold token at h
  dsimp only at h
  split at h
  · cases h
  · exact rewinds_fail _ hP h

private theorem rewinds_value (kind : TokenKind) (read : Payload → Option α) :
    (value kind read).Rewinds P input := by
  intro s s' failure hP h
  unfold value at h
  split at h
  · cases h
  · split at h <;> cases h
  · next htoken =>
    cases h
    exact rewinds_token kind hP htoken
  · cases h

private theorem rewinds_endOfStatement : endOfStatement.Rewinds P input := by
  intro s s' failure hP h
  unfold endOfStatement at h
  split at h
  · cases h
  · split at h
    · cases h
    · exact rewinds_fail _ hP h

private theorem rewinds_atomic : (atomic a).Rewinds P input := by
  intro s s' failure hP h
  unfold atomic at h
  split at h <;> cases h
  rfl

private theorem rewinds_sameLine (h : a.Rewinds P input) : (sameLine a).Rewinds P input := by
  intro s s' failure hP hs
  unfold sameLine at hs
  split at hs
  · exact rewinds_fail _ hP hs
  · exact h hP hs

private theorem rewinds_inBlockColumn (h : a.Rewinds P input) :
    (inBlockColumn a).Rewinds P input := by
  intro s s' failure hP hs
  unfold inBlockColumn at hs
  split at hs
  · exact h hP hs
  · exact rewinds_fail _ hP hs

private theorem rewinds_map (f : α → β) (h : a.Rewinds P input) :
    (mapOutcome (.map f) a).Rewinds P input := by
  intro s s' failure hP hs
  obtain ⟨outcome, ha, hf⟩ := mapOutcome_eq_ok.1 hs
  cases outcome <;> cases hf
  exact h hP ha

private theorem rewinds_commit : (mapOutcome .commit a).Rewinds P input := by
  intro s s' failure hP hs
  obtain ⟨outcome, -, hf⟩ := mapOutcome_eq_ok.1 hs
  cases outcome <;> cases hf

private theorem rewinds_commitAs (problem : Problem) :
    (mapOutcome (.commitAs problem) a).Rewinds P input := by
  intro s s' failure hP hs
  obtain ⟨outcome, -, hf⟩ := mapOutcome_eq_ok.1 hs
  cases outcome <;> cases hf

private theorem rewinds_optional : (optional a).Rewinds P input := by
  intro s s' failure hP hs
  unfold optional at hs
  split at hs <;> cases hs

private theorem rewinds_orElse {b : Step α}
    (hkeeps : a.Keeps (fun s s' ↦ P s.table → P s'.table) input) (h : b.Rewinds P input) :
    (orElse a b).Rewinds P input := by
  intro s s' failure hP hs
  unfold orElse at hs
  split at hs
  · next m ha =>
    have hm : P (m.moveTo s.position).table := by
      rw [State.table_moveTo]
      exact hkeeps ha hP
    have hsecond := h hm hs
    exact hsecond
  · next hne => exact absurd hs (hne _ _)

/-- A repetition ends at a recoverable failure with the items before it. -/
theorem repeated_ne_recoverable (allowed : Nat) {s s' : State} {failure : Failure} :
    repeated a allowed input s ≠ .ok (.recoverable failure, s') := by
  induction allowed generalizing s with
  | zero => exact nofun
  | succ allowed ih =>
    intro hs
    unfold repeated at hs
    split at hs
    · cases hs
    · cases hs
    · cases hs
    · split at hs
      · cases hs
      · obtain ⟨outcome, hrest, hf⟩ := mapOutcome_eq_ok.1 hs
        cases outcome <;> cases hf
        exact ih hrest

private theorem rewinds_many : (many a).Rewinds P input := by
  intro s s' failure hP hs
  exact absurd hs (repeated_ne_recoverable _)

private theorem aligned_ne_recoverable (column : Nat) (locate : α → Location) (allowed : Nat)
    {s s' : State} {failure : Failure} :
    aligned column locate a allowed input s ≠ .ok (.recoverable failure, s') := by
  induction allowed generalizing s with
  | zero => exact nofun
  | succ allowed ih =>
    intro hs
    unfold aligned at hs
    split at hs
    · cases hs
    · split at hs
      · cases hs
      · cases hs
      · cases hs
      · split at hs
        · cases hs
        · obtain ⟨outcome, hrest, hf⟩ := mapOutcome_eq_ok.1 hs
          cases outcome <;> cases hf
          exact ih hrest

/-- A block fails recoverably only before it is opened. -/
theorem rewinds_block (locate : α → Location) : (block locate a).Rewinds P input := by
  intro s s' failure hP hs
  unfold block at hs
  dsimp only at hs
  split at hs
  · exact rewinds_failAt _ _ hP hs
  · split at hs
    · cases hs
    · split at hs
      · exact rewinds_failAt _ _ hP hs
      · split at hs
        · cases hs
        · cases hs
        · next hlines =>
          cases hs
          exact absurd hlines (aligned_ne_recoverable _ _ _)

private theorem rewinds_nonEmpty (what : String) {step : Step (List α)} (h : step.Rewinds P input)
    (hidles : step.Idles input) : (nonEmpty what step).Rewinds P input := by
  intro s s' failure hP hs
  unfold nonEmpty bind at hs
  split at hs
  · cases hs
  · next items m hitems =>
    cases items with
    | nil =>
      cases hs
      exact hidles hitems
    | cons item items => cases hs
  · next hfailed =>
    cases hs
    exact h hP hfailed
  · cases hs

/-! ### Fatal failures -/

private theorem withdraws_atomic : (atomic a).Withdraws P input := by
  intro s s' failure hP h
  unfold atomic at h
  split at h <;> cases h
  rfl

private theorem withdraws_token (kind : TokenKind) : (token kind).Withdraws P input := by
  intro s s' failure hP h
  unfold token at h
  dsimp only at h
  split at h <;> cases h

private theorem withdraws_value (kind : TokenKind) (read : Payload → Option α) :
    (value kind read).Withdraws P input := by
  intro s s' failure hP h
  unfold value at h
  split at h
  · cases h
  · split at h <;> cases h
  · cases h
  · next htoken =>
    cases h
    exact withdraws_token kind hP htoken

private theorem withdraws_endOfStatement : endOfStatement.Withdraws P input := by
  intro s s' failure hP h
  unfold endOfStatement at h
  split at h
  · cases h
  · split at h <;> cases h

private theorem withdraws_sameLine (h : a.Withdraws P input) : (sameLine a).Withdraws P input := by
  intro s s' failure hP hs
  unfold sameLine at hs
  split at hs
  · cases hs
  · exact h hP hs

private theorem withdraws_inBlockColumn (h : a.Withdraws P input) :
    (inBlockColumn a).Withdraws P input := by
  intro s s' failure hP hs
  unfold inBlockColumn at hs
  split at hs
  · exact h hP hs
  · cases hs

private theorem withdraws_map (f : α → β) (h : a.Withdraws P input) :
    (mapOutcome (.map f) a).Withdraws P input := by
  intro s s' failure hP hs
  obtain ⟨outcome, ha, hf⟩ := mapOutcome_eq_ok.1 hs
  cases outcome <;> cases hf
  exact h hP ha

private theorem withdraws_commit (h : a.Withdraws P input) (h' : a.Rewinds P input) :
    (mapOutcome .commit a).Withdraws P input := by
  intro s s' failure hP hs
  obtain ⟨outcome, ha, hf⟩ := mapOutcome_eq_ok.1 hs
  cases outcome <;> cases hf
  · exact h' hP ha
  · exact h hP ha

private theorem withdraws_commitAs (problem : Problem) (h : a.Withdraws P input)
    (h' : a.Rewinds P input) :
    (mapOutcome (.commitAs problem) a).Withdraws P input := by
  intro s s' failure hP hs
  obtain ⟨outcome, ha, hf⟩ := mapOutcome_eq_ok.1 hs
  cases outcome <;> cases hf
  · exact h' hP ha
  · exact h hP ha

private theorem withdraws_optional (h : a.Withdraws P input) : (optional a).Withdraws P input := by
  intro s s' failure hP hs
  unfold optional at hs
  split at hs
  · cases hs
  · cases hs
  · cases hs
  · next hfailed =>
    cases hs
    exact h hP hfailed

private theorem withdraws_orElse {b : Step α}
    (hkeeps : a.Keeps (fun s s' ↦ P s.table → P s'.table) input) (h : a.Withdraws P input)
    (h' : b.Withdraws P input) : (orElse a b).Withdraws P input := by
  intro s s' failure hP hs
  unfold orElse at hs
  split at hs
  · next m ha =>
    have hm : P (m.moveTo s.position).table := by
      rw [State.table_moveTo]
      exact hkeeps ha hP
    have hsecond := h' hm hs
    exact hsecond
  · exact h hP hs

end Step

namespace Parser

/-- A parser that collects items. -/
inductive Collects : {α : Type} → Parser (List α) → Prop where
  | many {α : Type} (item : Parser α) : Collects (.many item)
  | many1 {α : Type} (item : Parser α) : Collects (.many1 item)
  | commaSeparated {α : Type} (item : Parser α) : Collects (.commaSeparated item)
  | block {α : Type} (locate : α → Location) (item : Parser α) : Collects (.block locate item)
  | nonEmpty {α : Type} (what : String) (items : Parser (List α)) : Collects (.nonEmpty what items)

/-- A collection without an item leaves the position. -/
theorem Collects.idles {parser : Parser (List α)} (h : parser.Collects)
    (call : (rule : Rule) → Step rule.Result) : (parser.run call).Idles input := by
  cases h with
  | many => exact Step.idles_many
  | many1 => exact Step.idles_many1
  | commaSeparated =>
    intro s s' hs
    obtain ⟨⟨first, rest⟩, -, hcons⟩ := Step.map_eq_ok.1 hs
    cases hcons
  | block locate => exact Step.idles_block locate
  | nonEmpty what => exact Step.idles_nonEmpty what _

/-- Items are demanded only of parsers of a certain sort. -/
def DemandsOf (Source : {α : Type} → Parser (List α) → Prop) : {α : Type} → Parser α → Prop
  | _, nonEmpty _ inner => inner.DemandsOf Source ∧ Source inner
  | _, seq first second | _, orElse first second => first.DemandsOf Source ∧ second.DemandsOf Source
  | _, onKind choices => ∀ kind, (choices kind).DemandsOf Source
  | _, sameLine inner | _, inBlockColumn inner | _, map _ inner | _, check _ inner
  | _, commit inner | _, commitAs _ inner | _, optional inner | _, many inner | _, many1 inner
  | _, block _ inner => inner.DemandsOf Source
  | _, _ => True

private theorem DemandsOf.imp {Source Other : {α : Type} → Parser (List α) → Prop}
    (himp : ∀ {α : Type} {inner : Parser (List α)}, Source inner → Other inner)
    {parser : Parser α} (h : parser.DemandsOf Source) : parser.DemandsOf Other := by
  induction parser with
  | nonEmpty _ _ ih => exact ⟨ih h.1, himp h.2⟩
  | seq _ _ ih ih' | orElse _ _ ih ih' => exact ⟨ih h.1, ih' h.2⟩
  | onKind _ ih => exact fun kind ↦ ih kind (h kind)
  | sameLine _ ih | inBlockColumn _ ih | map _ _ ih | check _ _ ih | commit _ ih
  | commitAs _ _ ih | optional _ ih | many _ ih | many1 _ ih | block _ _ ih => exact ih h
  | succeed | fail | here | token | value | endOfStatement | rule => trivial

/-- Where an item is demanded, finding none leaves the position. -/
def Careful (input : Input) (parser : Parser α) : Prop :=
  parser.DemandsOf fun inner ↦ ∀ call, (inner.run call).Idles input

/-- Demands of collections are careful. -/
theorem DemandsOf.careful {parser : Parser α} (h : parser.DemandsOf Collects) :
    parser.Careful input :=
  h.imp fun hcollects ↦ hcollects.idles

/-- No fatal failure comes from inside a repetition or a block, if none does from the `contained`
rules. -/
def Contained (contained : Rule → Prop) : {α : Type} → Parser α → Prop
  | _, rule name => contained name
  | _, orElse first second => first.Contained contained ∧ second.Contained contained
  | _, onKind choices => ∀ kind, (choices kind).Contained contained
  | _, sameLine inner | _, inBlockColumn inner | _, map _ inner | _, commit inner
  | _, commitAs _ inner | _, optional inner => inner.Contained contained
  | _, many _ | _, block _ _ | _, nonEmpty _ _ => False
  | _, _ => True

variable {call : (rule : Rule) → Step rule.Result}

/-- A careful parser rewinds if the rules do. -/
theorem run_rewinds (hkeeps : ∀ rule, (call rule).Keeps (fun s s' ↦ P s.table → P s'.table) input)
    (hcall : ∀ rule, (call rule).Rewinds P input) {parser : Parser α}
    (hcareful : parser.Careful input) : (parser.run call).Rewinds P input := by
  induction parser with
  | succeed | here =>
    intro s s' failure _ hs
    cases hs
  | fail problem => exact Step.rewinds_fail problem
  | token kind => exact Step.rewinds_token kind
  | value kind read => exact Step.rewinds_value kind read
  | endOfStatement => exact Step.rewinds_endOfStatement
  | rule rule => exact hcall rule
  | sameLine _ ih => exact Step.rewinds_sameLine (ih hcareful)
  | inBlockColumn _ ih => exact Step.rewinds_inBlockColumn (ih hcareful)
  | onKind _ ih =>
    intro s s' failure hP hs
    exact ih _ (hcareful _) hP hs
  | seq | check | many1 => exact Step.rewinds_atomic
  | map f _ ih => exact Step.rewinds_map f (ih hcareful)
  | commit => exact Step.rewinds_commit
  | commitAs problem => exact Step.rewinds_commitAs problem
  | optional => exact Step.rewinds_optional
  | many => exact Step.rewinds_many
  | orElse first _ _ ih =>
    exact Step.rewinds_orElse (first.run_keeps (frame_table P) hkeeps) (ih hcareful.2)
  | block locate => exact Step.rewinds_block locate
  | nonEmpty what _ ih => exact Step.rewinds_nonEmpty what (ih hcareful.1) (hcareful.2 call)

/-- A contained parser withdraws if the contained rules do. -/
theorem run_withdraws {contained : Rule → Prop}
    (hkeeps : ∀ rule, (call rule).Keeps (fun s s' ↦ P s.table → P s'.table) input)
    (hcall : ∀ rule, (call rule).Rewinds P input)
    (hcontained : ∀ rule, contained rule → (call rule).Withdraws P input) {parser : Parser α}
    (hcareful : parser.Careful input) (h : parser.Contained contained) :
    (parser.run call).Withdraws P input := by
  induction parser with
  | succeed | fail | here =>
    intro s s' failure _ hs
    cases hs
  | token kind => exact Step.withdraws_token kind
  | value kind read => exact Step.withdraws_value kind read
  | endOfStatement => exact Step.withdraws_endOfStatement
  | rule rule => exact hcontained rule h
  | sameLine _ ih => exact Step.withdraws_sameLine (ih hcareful h)
  | inBlockColumn _ ih => exact Step.withdraws_inBlockColumn (ih hcareful h)
  | onKind _ ih =>
    intro s s' failure hP hs
    exact ih _ (hcareful _) (h _) hP hs
  | seq | check | many1 => exact Step.withdraws_atomic
  | map f _ ih => exact Step.withdraws_map f (ih hcareful h)
  | commit _ ih =>
    exact Step.withdraws_commit (ih hcareful h) (run_rewinds hkeeps hcall hcareful)
  | commitAs problem _ ih =>
    exact Step.withdraws_commitAs problem (ih hcareful h) (run_rewinds hkeeps hcall hcareful)
  | optional _ ih => exact Step.withdraws_optional (ih hcareful h)
  | orElse first _ ih ih' =>
    exact Step.withdraws_orElse (first.run_keeps (frame_table P) hkeeps) (ih hcareful.1 h.1)
      (ih' hcareful.2 h.2)
  | many | block | nonEmpty => exact h.elim

end Parser

end Offside.Packrat
