import Offside.Packrat.Parser
import Offside.Proofs.Source.Payload

/-!
# Runs without faults

A step is faultless if it has no fault but to run out of its bound. What is remembered left aside,
the one other fault is a token whose value cannot be read: where every token carries what its kind
says (`Input.Carrying`) and a parser can read whatever the kinds carry that it asks for
(`Parser.Reads`), faultless rules make a faultless parser (`Parser.run_faultless`).
-/

namespace Offside.Packrat

variable {α β : Type} {input : Input}

/-- The tokens of the input carry what their kinds say. -/
def Input.Carrying (input : Input) : Prop :=
  ∀ token ∈ input.tokens, token.kind.Carries token.payload

/-- Behind the last token nothing is carried, which is what the end of the input says. -/
theorem Input.Carrying.tokenAt (h : input.Carrying) (position : Nat) :
    (input.tokenAt position).kind.Carries (input.tokenAt position).payload := by
  unfold Input.tokenAt
  cases hfound : input.tokens[position]? with
  | none => exact rfl
  | some token => exact h token (Array.mem_of_getElem? hfound)

namespace Step

/-- The step has no fault but to run out of its bound. -/
def Faultless (input : Input) (step : Step α) : Prop :=
  ∀ ⦃s : State⦄ ⦃fault : Fault⦄, step input s = .error fault → fault = .exhausted

variable {a : Step α} {b : Step β}

private theorem faultless_fail (problem : Terminal → Problem) :
    (fail (α := α) problem).Faultless input :=
  fun _ _ h ↦ nomatch h

private theorem faultless_token (kind : TokenKind) : (token kind).Faultless input := by
  intro s fault h
  unfold token at h
  dsimp only at h
  split at h
  · cases h
  · exact faultless_fail _ h

private theorem faultless_value (h : input.Carrying) {kind : TokenKind} {read : Payload → Option α}
    (hread : ∀ payload, kind.Carries payload → (read payload).isSome) :
    (value kind read).Faultless input := by
  intro s fault hs
  have hcarries := h.tokenAt s.position
  unfold value token at hs
  dsimp only at hs
  by_cases hkind : (s.current input).kind = kind
  · have hsome := hread (s.current input).payload (hkind ▸ hcarries)
    rw [if_pos hkind] at hs
    obtain ⟨found, hfound⟩ := Option.isSome_iff_exists.1 hsome
    dsimp only at hs
    rw [hfound] at hs
    cases hs
  · rw [if_neg hkind] at hs
    cases hs

private theorem faultless_endOfStatement : endOfStatement.Faultless input := by
  intro s fault h
  unfold endOfStatement at h
  split at h
  · cases h
  · split at h
    · cases h
    · exact faultless_fail _ h

private theorem faultless_bind {next : α → Step β} (h : a.Faultless input)
    (hnext : ∀ found, (next found).Faultless input) : (bind a next).Faultless input := by
  intro s fault hs
  unfold bind at hs
  split at hs
  · next ha =>
    cases hs
    exact h ha
  · exact hnext _ hs
  · cases hs
  · cases hs

private theorem faultless_mapOutcome (f : Outcome α → Outcome β) (h : a.Faultless input) :
    (mapOutcome f a).Faultless input := by
  intro s fault hs
  unfold mapOutcome at hs
  split at hs
  · next ha =>
    cases hs
    exact h ha
  · cases hs

private theorem faultless_atomic (h : a.Faultless input) : (atomic a).Faultless input := by
  intro s fault hs
  unfold atomic at hs
  split at hs
  · next ha =>
    cases hs
    exact h ha
  · cases hs
  · cases hs

private theorem faultless_seq (h : a.Faultless input) (h' : b.Faultless input) :
    (seq a b).Faultless input :=
  faultless_atomic (faultless_bind h fun _ ↦ faultless_bind h' fun _ _ _ hs ↦ nomatch hs)

private theorem faultless_check (verdict : α → Outcome β) (h : a.Faultless input) :
    (check a verdict).Faultless input :=
  faultless_atomic (faultless_bind h fun _ _ _ hs ↦ nomatch hs)

private theorem faultless_sameLine (h : a.Faultless input) : (sameLine a).Faultless input := by
  intro s fault hs
  unfold sameLine at hs
  split at hs
  · exact faultless_fail _ hs
  · exact h hs

private theorem faultless_inBlockColumn (h : a.Faultless input) :
    (inBlockColumn a).Faultless input := by
  intro s fault hs
  unfold inBlockColumn at hs
  split at hs
  · exact h hs
  · exact faultless_fail _ hs

private theorem faultless_optional (h : a.Faultless input) : (optional a).Faultless input := by
  intro s fault hs
  unfold optional at hs
  split at hs
  · next ha =>
    cases hs
    exact h ha
  · cases hs
  · cases hs
  · cases hs

private theorem faultless_orElse {b : Step α} (h : a.Faultless input) (h' : b.Faultless input) :
    (orElse a b).Faultless input := by
  intro s fault hs
  unfold orElse at hs
  split at hs
  · exact h' hs
  · exact h hs

private theorem faultless_repeated (h : a.Faultless input) (allowed : Nat) :
    (repeated a allowed).Faultless input := by
  induction allowed with
  | zero =>
    intro s fault hs
    cases hs
    rfl
  | succ allowed ih =>
    intro s fault hs
    unfold repeated at hs
    split at hs
    · next ha =>
      cases hs
      exact h ha
    · cases hs
    · cases hs
    · split at hs
      · cases hs
      · exact faultless_mapOutcome _ ih hs

private theorem faultless_many (h : a.Faultless input) : (many a).Faultless input :=
  fun _ _ hs ↦ faultless_repeated h _ hs

private theorem faultless_many1 (h : a.Faultless input) : (many1 a).Faultless input := by
  refine faultless_atomic (faultless_bind (faultless_many h) fun items s fault hs ↦ ?_)
  split at hs
  · exact faultless_fail _ hs
  · cases hs

private theorem faultless_nonEmpty (what : String) {step : Step (List α)}
    (h : step.Faultless input) :
    (nonEmpty what step).Faultless input := by
  refine faultless_bind h fun items s fault hs ↦ ?_
  split at hs <;> cases hs

private theorem faultless_line (h : a.Faultless input) : (line a).Faultless input :=
  faultless_mapOutcome _ (faultless_seq h (faultless_many (faultless_token _)))

private theorem faultless_aligned (column : Nat) (locate : α → Location) (h : a.Faultless input)
    (allowed : Nat) : (aligned column locate a allowed).Faultless input := by
  induction allowed with
  | zero =>
    intro s fault hs
    cases hs
    rfl
  | succ allowed ih =>
    intro s fault hs
    unfold aligned at hs
    split at hs
    · cases hs
    · split at hs
      · next ha =>
        cases hs
        exact h ha
      · cases hs
      · cases hs
      · split at hs
        · cases hs
        · exact faultless_mapOutcome _ ih hs

private theorem faultless_block (locate : α → Location) (h : a.Faultless input) :
    (block locate a).Faultless input := by
  intro s fault hs
  unfold block at hs
  dsimp only at hs
  split at hs
  · cases hs
  · split at hs
    · cases hs
    · next column _ =>
      split at hs
      · cases hs
      · split at hs
        · next ha =>
          cases hs
          exact faultless_aligned column locate (faultless_line h) _ ha
        · cases hs
        · cases hs

end Step

/-- A parser asks for values only where the kind of the token carries one that can be read. -/
def Parser.Reads : {α : Type} → Parser α → Prop
  | _, .value kind read => ∀ payload, kind.Carries payload → (read payload).isSome
  | _, .sameLine inner => inner.Reads
  | _, .inBlockColumn inner => inner.Reads
  | _, .onKind choices => ∀ kind, (choices kind).Reads
  | _, .seq first second => first.Reads ∧ second.Reads
  | _, .map _ inner => inner.Reads
  | _, .check _ inner => inner.Reads
  | _, .commit inner => inner.Reads
  | _, .commitAs _ inner => inner.Reads
  | _, .optional inner => inner.Reads
  | _, .many inner => inner.Reads
  | _, .many1 inner => inner.Reads
  | _, .orElse first second => first.Reads ∧ second.Reads
  | _, .block _ item => item.Reads
  | _, .nonEmpty _ inner => inner.Reads
  | _, .succeed _ | _, .fail _ | _, .here | _, .token _ | _, .endOfStatement | _, .rule _ => True

/-- Where every token carries what its kind says, faultless rules make a faultless parser. -/
theorem Parser.run_faultless (hinput : input.Carrying) {call : (rule : Rule) → Step rule.Result}
    (hcall : ∀ rule, (call rule).Faultless input) {parser : Parser α} (h : parser.Reads) :
    (parser.run call).Faultless input := by
  induction parser with
  | succeed | here => exact fun _ _ hs ↦ nomatch hs
  | fail problem => exact Step.faultless_fail problem
  | token kind => exact Step.faultless_token kind
  | value kind read => exact Step.faultless_value hinput h
  | endOfStatement => exact Step.faultless_endOfStatement
  | rule rule => exact hcall rule
  | sameLine _ ih => exact Step.faultless_sameLine (ih h)
  | inBlockColumn _ ih => exact Step.faultless_inBlockColumn (ih h)
  | onKind _ ih => exact fun s _ hs ↦ ih _ (h _) hs
  | seq _ _ ih ih' => exact Step.faultless_seq (ih h.1) (ih' h.2)
  | map f _ ih => exact Step.faultless_mapOutcome (.map f) (ih h)
  | check verdict _ ih => exact Step.faultless_check verdict (ih h)
  | commit _ ih => exact Step.faultless_mapOutcome .commit (ih h)
  | commitAs problem _ ih => exact Step.faultless_mapOutcome (.commitAs problem) (ih h)
  | optional _ ih => exact Step.faultless_optional (ih h)
  | many _ ih => exact Step.faultless_many (ih h)
  | many1 _ ih => exact Step.faultless_many1 (ih h)
  | orElse _ _ ih ih' => exact Step.faultless_orElse (ih h.1) (ih' h.2)
  | block locate _ ih => exact Step.faultless_block locate (ih h)
  | nonEmpty what _ ih => exact Step.faultless_nonEmpty what (ih h)

end Offside.Packrat
