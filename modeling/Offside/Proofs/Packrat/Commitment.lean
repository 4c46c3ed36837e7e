import Offside.Proofs.Packrat.Rollback

/-!
# Where parsers are committed

A step is firm at a state if it does not fail recoverably there (`Step.FirmAt`). A parser commits
before a kind of token if nothing in it can fail recoverably but the first token, which is of that
kind (`Parser.Commits`); then it is firm wherever such a token comes next
(`Parser.Commits.firmAt`).
-/

namespace Offside.Packrat

variable {α β : Type} {input : Input} {s : State} {a : Step α} {b : Step β}

namespace Step

/-- The step does not fail recoverably from the state. -/
def FirmAt (input : Input) (step : Step α) (s : State) : Prop :=
  ∀ failure s', step input s ≠ .ok (.recoverable failure, s')

private theorem firmAt_succeed (value : α) : (succeed value).FirmAt input s := by
  intro failure s' hs
  cases hs

/-- A token that is there is read firmly. -/
theorem firmAt_token {kind : TokenKind} (h : (s.current input).kind = kind) :
    (token kind).FirmAt input s := by
  intro failure s' hs
  unfold token at hs
  rw [if_pos h] at hs
  cases hs

/-- A value whose token is there is read firmly. -/
theorem firmAt_value {kind : TokenKind} (h : (s.current input).kind = kind)
    (read : Payload → Option α) : (value kind read).FirmAt input s := by
  intro failure s' hs
  unfold value at hs
  split at hs
  · cases hs
  · split at hs <;> cases hs
  · next htoken => exact firmAt_token h _ _ htoken
  · cases hs

/-- Nothing is reported at the end of a statement where a line has just ended. -/
theorem firmAt_endOfStatement (h : input.EndsLineBefore s.position) :
    endOfStatement.FirmAt input s := by
  intro failure s' hs
  unfold endOfStatement at hs
  rw [if_pos ((s.isBehindLineEnd_iff input).2 h)] at hs
  split at hs <;> cases hs

private theorem FirmAt.bind {next : α → Step β} (ha : a.FirmAt input s)
    (hnext : ∀ found m, a input s = .ok (.ok found, m) → (next found).FirmAt input m) :
    (Step.bind a next).FirmAt input s := by
  intro failure s' hs
  unfold Step.bind at hs
  split at hs
  · cases hs
  · next hfound => exact hnext _ _ hfound _ _ hs
  · next hfailed => exact ha _ _ hfailed
  · cases hs

private theorem FirmAt.atomic (ha : a.FirmAt input s) : (Step.atomic a).FirmAt input s := by
  intro failure s' hs
  unfold Step.atomic at hs
  split at hs
  · cases hs
  · cases hs
  · next hfailed =>
    cases hs
    exact ha _ _ hfailed

/-- A sequence is firm if its first step is, and its second wherever the first succeeds. -/
theorem FirmAt.seq (ha : a.FirmAt input s)
    (hb : ∀ found m, a input s = .ok (.ok found, m) → b.FirmAt input m) :
    (Step.seq a b).FirmAt input s :=
  (ha.bind fun found m hfound ↦
    (hb found m hfound).bind fun _ _ _ ↦ firmAt_succeed _).atomic

/-- A function of what is read firmly is read firmly. -/
theorem FirmAt.map (ha : a.FirmAt input s) (f : α → β) :
    (mapOutcome (.map f) a).FirmAt input s := by
  intro failure s' hs
  obtain ⟨outcome, houtcome, hf⟩ := mapOutcome_eq_ok.1 hs
  cases outcome <;> cases hf
  exact ha _ _ houtcome

/-- A committed step is firm. -/
theorem firmAt_commit (a : Step α) : (mapOutcome .commit a).FirmAt input s := by
  intro failure s' hs
  obtain ⟨outcome, -, hf⟩ := mapOutcome_eq_ok.1 hs
  cases outcome <;> cases hf

/-- A committed step is firm, since it never fails recoverably. -/
theorem firmAt_commitAs (problem : Problem) (a : Step α) :
    (mapOutcome (.commitAs problem) a).FirmAt input s := by
  intro failure s' hs
  obtain ⟨outcome, -, hf⟩ := mapOutcome_eq_ok.1 hs
  cases outcome <;> cases hf

private theorem firmAt_optional (a : Step α) : (optional a).FirmAt input s := by
  intro failure s' hs
  unfold optional at hs
  split at hs <;> cases hs

private theorem firmAt_many (a : Step α) : (many a).FirmAt input s :=
  fun _ _ hs ↦ repeated_ne_recoverable _ hs

/-- The first alternative that does not fail recoverably decides. -/
theorem FirmAt.orElse {b : Step α} (ha : a.FirmAt input s) : (Step.orElse a b).FirmAt input s := by
  intro failure s' hs
  unfold Step.orElse at hs
  split at hs
  · next hfirst => exact ha _ _ hfirst
  · exact ha _ _ hs

/-- A choice is firm if the alternative is that is tried where the others fail recoverably. -/
theorem firmAt_orElse {b : Step α} (hb : ∀ m : State, m.position = s.position → b.FirmAt input m) :
    (orElse a b).FirmAt input s := by
  intro failure s' hs
  unfold orElse at hs
  split at hs
  · exact hb _ (State.position_moveTo ..) _ _ hs
  · next hne => exact hne _ _ hs

end Step

namespace Parser

/-- Before a token of the kind, nothing in the parser can fail recoverably, if the given rules do
not. -/
def Commits : {α : Type} → Parser α → (firm : Rule → Prop) → TokenKind → Prop
  | _, token expected, _, kind | _, value expected _, _, kind => kind = expected
  | _, rule name, firm, _ => firm name
  | _, map _ inner, firm, kind => inner.Commits firm kind
  | _, seq first second, firm, kind =>
    first.Commits firm kind ∧ ∀ later, second.Commits (fun _ ↦ False) later
  | _, orElse first second, firm, kind => first.Commits firm kind ∨ second.Commits firm kind
  | _, succeed _, _, _ | _, here, _, _ | _, commit _, _, _ | _, commitAs _ _, _, _
  | _, optional _, _, _ | _, many _, _, _ => True
  | _, _, _, _ => False

/-- A parser that commits before a token is firm where it comes next, if the given rules are. -/
theorem Commits.firmAt {call : (rule : Rule) → Step rule.Result} {firm : Rule → Prop}
    {kind : TokenKind}
    (hrules : ∀ rule, firm rule → ∀ s : State, (s.current input).kind = kind →
      (call rule).FirmAt input s)
    {parser : Parser α} (h : parser.Commits firm kind) {s : State}
    (hs : (s.current input).kind = kind) : (parser.run call).FirmAt input s := by
  induction parser generalizing firm kind s with
  | token => exact Step.firmAt_token (hs.trans h)
  | value _ read => exact Step.firmAt_value (hs.trans h) read
  | rule name => exact hrules name h s hs
  | map f inner ih => exact (ih hrules h hs).map f
  | seq first second ih ih' =>
    exact (ih hrules h.1 hs).seq fun _ m _ ↦
      ih' (fun _ hfalse ↦ hfalse.elim) (h.2 (m.current input).kind) rfl
  | orElse first second ih ih' =>
    obtain hfirst | hsecond := h
    · exact (ih hrules hfirst hs).orElse
    · refine Step.firmAt_orElse fun m hm ↦ ih' hrules hsecond ?_
      rw [State.current, hm]
      exact hs
  | succeed value => exact Step.firmAt_succeed value
  | here =>
    intro failure s' hrun
    cases hrun
  | commit inner => exact Step.firmAt_commit _
  | commitAs problem inner => exact Step.firmAt_commitAs problem _
  | optional inner => exact Step.firmAt_optional _
  | many inner => exact Step.firmAt_many _
  | _ => exact h.elim

end Parser

end Offside.Packrat
