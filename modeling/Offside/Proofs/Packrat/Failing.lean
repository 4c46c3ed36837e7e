import Offside.Proofs.Packrat.Reading
import Offside.Proofs.Packrat.Rollback

/-!
# How steps fail

The companion of what steps read, for failures of which something is known: a step misses a view if
it fails recoverably wherever it starts before it (`Step.Misses`), and it aborts there if it fails
fatally (`Step.Aborts`). What is committed turns misses into aborts; an abort is passed on by all
that is put around it, while a miss may be passed over for what comes next.
-/

namespace Offside.Packrat

variable {α β : Type}

variable (tokens : Array Token)

/-- Wherever the step starts before the view, it fails recoverably with a failure of which the claim
holds. -/
def Step.Misses (step : Step α) (indent : Nat) (view : View) (claim : Failure → Prop) : Prop :=
  ∀ s : State, s.Faces ⟨tokens, false⟩ indent view → ∃ failure position,
    step ⟨tokens, false⟩ s = .ok (.recoverable failure, s.moveTo position) ∧ claim failure

/-- Wherever the step starts before the view, it fails fatally with a failure of which the claim
holds. -/
def Step.Aborts (step : Step α) (indent : Nat) (view : View) (claim : Failure → Prop) : Prop :=
  ∀ s : State, s.Faces ⟨tokens, false⟩ indent view → ∃ failure position,
    step ⟨tokens, false⟩ s = .ok (.fatal failure, s.moveTo position) ∧ claim failure

namespace Step

variable {tokens} {indent : Nat} {view next last : View} {a : Step α} {b : Step β}
  {accepts : α → Prop} {claim : Failure → Prop}

/-- A step that misses declines. -/
theorem Misses.declines (ha : a.Misses tokens indent view claim) :
    a.Declines tokens indent view := by
  intro s hs
  obtain ⟨failure, position, heq, -⟩ := ha s hs
  exact ⟨failure, position, heq⟩

/-- A step misses with whatever follows from what its failure is. -/
theorem Misses.mono {weaker : Failure → Prop} (ha : a.Misses tokens indent view claim)
    (h : ∀ failure, claim failure → weaker failure) : a.Misses tokens indent view weaker := by
  intro s hs
  obtain ⟨failure, position, heq, hclaim⟩ := ha s hs
  exact ⟨failure, position, heq, h failure hclaim⟩

/-- A step aborts with whatever follows from what its failure is. -/
theorem Aborts.mono {weaker : Failure → Prop} (ha : a.Aborts tokens indent view claim)
    (h : ∀ failure, claim failure → weaker failure) : a.Aborts tokens indent view weaker := by
  intro s hs
  obtain ⟨failure, position, heq, hclaim⟩ := ha s hs
  exact ⟨failure, position, heq, h failure hclaim⟩

/-- Another token is reported where it stands. -/
theorem misses_token {token : Token} {rest : List Token} {kind : TokenKind}
    (hview : view.tokens = token :: rest) (h : token.kind ≠ kind) (indent : Nat) :
    (Step.token kind).Misses tokens indent view
      (· = ⟨token.location, .expectedToken kind token.toTerminal⟩) := by
  intro s hs
  refine ⟨_, s.position, ?_, rfl⟩
  simp only [Step.token, fail, failAt, hs.current hview, if_neg h]
  rfl

/-! ### One after the other -/

/-- Two steps in order miss where the first does. -/
theorem Misses.seq (ha : a.Misses tokens indent view claim) (b : Step β) :
    (Step.seq a b).Misses tokens indent view claim := by
  intro s hs
  obtain ⟨failure, position, hfirst, hclaim⟩ := ha s hs
  refine ⟨failure, s.position, ?_, hclaim⟩
  simp only [Step.seq, Step.atomic, Step.bind, hfirst]
  rfl

/-- Two steps in order abort where the first does. -/
theorem Aborts.seq (ha : a.Aborts tokens indent view claim) (b : Step β) :
    (Step.seq a b).Aborts tokens indent view claim := by
  intro s hs
  obtain ⟨failure, position, hfirst, hclaim⟩ := ha s hs
  refine ⟨failure, s.position, ?_, hclaim⟩
  simp only [Step.seq, Step.atomic, Step.bind, hfirst]
  rfl

/-- Two steps in order miss where the second does behind the first. -/
theorem Yields.seq_misses (ha : a.Yields tokens indent view next accepts)
    (hb : b.Misses tokens indent next claim) : (Step.seq a b).Misses tokens indent view claim := by
  intro s hs
  obtain ⟨first, middle, hfirst, -, hmiddle⟩ := ha s hs
  obtain ⟨failure, position, hsecond, hclaim⟩ := hb _ hmiddle
  refine ⟨failure, s.position, ?_, hclaim⟩
  simp only [Step.seq, Step.atomic, Step.bind, hfirst, hsecond]
  rfl

/-- Two steps in order abort where the second does behind the first. -/
theorem Yields.seq_aborts (ha : a.Yields tokens indent view next accepts)
    (hb : b.Aborts tokens indent next claim) : (Step.seq a b).Aborts tokens indent view claim := by
  intro s hs
  obtain ⟨first, middle, hfirst, -, hmiddle⟩ := ha s hs
  obtain ⟨failure, position, hsecond, hclaim⟩ := hb _ hmiddle
  refine ⟨failure, s.position, ?_, hclaim⟩
  simp only [Step.seq, Step.atomic, Step.bind, hfirst, hsecond]
  rfl

/-- A function of what is read misses where the step does. -/
theorem Misses.map (ha : a.Misses tokens indent view claim) (f : α → β) :
    (mapOutcome (.map f) a).Misses tokens indent view claim := by
  intro s hs
  obtain ⟨failure, position, heq, hclaim⟩ := ha s hs
  exact ⟨failure, position, by simp only [mapOutcome, heq, Outcome.map], hclaim⟩

/-- A function of what is read aborts where the step does. -/
theorem Aborts.map (ha : a.Aborts tokens indent view claim) (f : α → β) :
    (mapOutcome (.map f) a).Aborts tokens indent view claim := by
  intro s hs
  obtain ⟨failure, position, heq, hclaim⟩ := ha s hs
  exact ⟨failure, position, by simp only [mapOutcome, heq, Outcome.map], hclaim⟩

/-- A miss of what is committed is an abort. -/
theorem Misses.commit (ha : a.Misses tokens indent view claim) :
    (mapOutcome .commit a).Aborts tokens indent view claim := by
  intro s hs
  obtain ⟨failure, position, heq, hclaim⟩ := ha s hs
  exact ⟨failure, position, by simp only [mapOutcome, heq, Outcome.commit], hclaim⟩

/-- A step that aborts does so as well if it is committed. -/
theorem Aborts.commit (ha : a.Aborts tokens indent view claim) :
    (mapOutcome .commit a).Aborts tokens indent view claim := by
  intro s hs
  obtain ⟨failure, position, heq, hclaim⟩ := ha s hs
  exact ⟨failure, position, by simp only [mapOutcome, heq, Outcome.commit], hclaim⟩

/-- A judged step misses where the step does. -/
theorem Misses.check (ha : a.Misses tokens indent view claim) (verdict : α → Outcome β) :
    (Step.check a verdict).Misses tokens indent view claim := by
  intro s hs
  obtain ⟨failure, position, heq, hclaim⟩ := ha s hs
  refine ⟨failure, s.position, ?_, hclaim⟩
  simp only [Step.check, Step.atomic, Step.bind, heq]
  rfl

/-- A judged step aborts where the step does. -/
theorem Aborts.check (ha : a.Aborts tokens indent view claim) (verdict : α → Outcome β) :
    (Step.check a verdict).Aborts tokens indent view claim := by
  intro s hs
  obtain ⟨failure, position, heq, hclaim⟩ := ha s hs
  refine ⟨failure, s.position, ?_, hclaim⟩
  simp only [Step.check, Step.atomic, Step.bind, heq]
  rfl

/-- What is read is rejected. -/
theorem Yields.check_misses {verdict : α → Outcome β}
    (ha : a.Yields tokens indent view next accepts)
    (h : ∀ found, accepts found → ∃ failure, verdict found = .recoverable failure ∧ claim failure) :
    (Step.check a verdict).Misses tokens indent view claim := by
  intro s hs
  obtain ⟨found, position, heq, hfound, -⟩ := ha s hs
  obtain ⟨failure, hverdict, hclaim⟩ := h found hfound
  refine ⟨failure, s.position, ?_, hclaim⟩
  simp only [Step.check, Step.atomic, Step.bind, heq, hverdict]
  rfl

/-! ### Choices and repetitions -/

/-- An optional step aborts where the step does. -/
theorem Aborts.optional (ha : a.Aborts tokens indent view claim) :
    (Step.optional a).Aborts tokens indent view claim := by
  intro s hs
  obtain ⟨failure, position, heq, hclaim⟩ := ha s hs
  exact ⟨failure, position, by simp only [Step.optional, heq], hclaim⟩

/-- Alternatives abort where the first of them does. -/
theorem Aborts.orElse (ha : a.Aborts tokens indent view claim) (b : Step α) :
    (Step.orElse a b).Aborts tokens indent view claim := by
  intro s hs
  obtain ⟨failure, position, heq, hclaim⟩ := ha s hs
  exact ⟨failure, position, by simp only [Step.orElse, heq], hclaim⟩

/-- Alternatives abort where the first declines and the second aborts. -/
theorem Declines.orElse_aborts {b : Step α} (ha : a.Declines tokens indent view)
    (hb : b.Aborts tokens indent view claim) :
    (Step.orElse a b).Aborts tokens indent view claim := by
  intro s hs
  obtain ⟨failure, position, heq⟩ := ha s hs
  obtain ⟨fatal, stop, hfatal, hclaim⟩ := hb s hs
  refine ⟨fatal, stop, ?_, hclaim⟩
  simp only [Step.orElse, heq]
  exact hfatal

/-- Successes in a row abort where the first try does. -/
theorem Aborts.many (ha : a.Aborts tokens indent view claim) :
    (Step.many a).Aborts tokens indent view claim := by
  intro s hs
  obtain ⟨failure, position, heq, hclaim⟩ := ha s hs
  exact ⟨failure, position, by simp only [Step.many, hs.attempts, Step.repeated, heq], hclaim⟩

/-- A repetition aborts behind an item if it does so from there on. -/
theorem Yields.many_aborts (ha : a.Yields tokens indent view next accepts)
    (hlt : next.tokens.length < view.tokens.length)
    (hmany : (Step.many a).Aborts tokens indent next claim) :
    (Step.many a).Aborts tokens indent view claim := by
  intro s hs
  obtain ⟨first, middle, hfirst, -, hmiddle⟩ := ha s hs
  obtain ⟨failure, position, hrest, hclaim⟩ := hmany _ hmiddle
  exact ⟨failure, position, many_eq_of_ok hs hmiddle hlt hfirst hrest, hclaim⟩

/-! ### Where an abort comes from -/

section Inversion

variable {input : Input} {s s' : State} {failure : Failure}

/-- A token is never missing fatally. -/
theorem token_ne_fatal {kind : TokenKind} : token kind input s ≠ .ok (.fatal failure, s') := by
  intro h
  unfold token at h
  dsimp only at h
  split at h <;> cases h

/-- A value is never missing fatally. -/
theorem value_ne_fatal {kind : TokenKind} {read : Payload → Option α} :
    value kind read input s ≠ .ok (.fatal failure, s') := by
  intro h
  unfold value at h
  split at h
  · cases h
  · split at h <;> cases h
  · cases h
  · next htoken => exact token_ne_fatal htoken

/-- A fatal failure of a function of what is read is one of the step. -/
theorem map_eq_fatal {f : α → β} (h : mapOutcome (.map f) a input s = .ok (.fatal failure, s')) :
    a input s = .ok (.fatal failure, s') := by
  obtain ⟨outcome, ha, hf⟩ := mapOutcome_eq_ok.1 h
  cases outcome <;> cases hf
  exact ha

private theorem bind_eq_fatal {next : α → Step β}
    (h : bind a next input s = .ok (.fatal failure, s')) :
    (∃ m, a input s = .ok (.fatal failure, m)) ∨
      ∃ found m, a input s = .ok (.ok found, m) ∧
        next found input m = .ok (.fatal failure, s') := by
  unfold bind at h
  split at h
  · cases h
  · next found m hfound => exact .inr ⟨found, m, hfound, h⟩
  · cases h
  · next hfailed =>
    cases h
    exact .inl ⟨_, hfailed⟩

/-- A sequence aborts where one of its steps does. -/
theorem seq_eq_fatal (h : seq a b input s = .ok (.fatal failure, s')) :
    (∃ m, a input s = .ok (.fatal failure, m)) ∨
      ∃ found m m', a input s = .ok (.ok found, m) ∧ b input m = .ok (.fatal failure, m') := by
  unfold seq atomic at h
  split at h
  · cases h
  · cases h
  · next hbind =>
    cases h
    obtain hfirst | ⟨found, m, hfound, hsecond⟩ := bind_eq_fatal hbind
    · exact .inl hfirst
    · obtain ⟨m', hsecond⟩ | ⟨_, _, -, hnever⟩ := bind_eq_fatal hsecond
      · exact .inr ⟨found, m, m', hfound, hsecond⟩
      · cases hnever

/-- A fatal failure of an optional step is one of the step. -/
theorem optional_eq_fatal (h : optional a input s = .ok (.fatal failure, s')) :
    a input s = .ok (.fatal failure, s') := by
  unfold optional at h
  split at h
  · cases h
  · cases h
  · cases h
  · next hfailed =>
    cases h
    exact hfailed

/-- A fatal failure of two alternatives is one of the first or, where that fails recoverably, of the
second. -/
theorem orElse_eq_fatal {b : Step α} (h : orElse a b input s = .ok (.fatal failure, s')) :
    a input s = .ok (.fatal failure, s') ∨ ∃ missed m, a input s = .ok (.recoverable missed, m) ∧
      b input (m.moveTo s.position) = .ok (.fatal failure, s') := by
  unfold orElse at h
  split at h
  · next missed m hfailed => exact .inr ⟨missed, m, hfailed, h⟩
  · exact .inl h

/-- A repetition aborts at its first item or behind one. -/
theorem repeated_eq_fatal {allowed : Nat}
    (h : repeated a (allowed + 1) input s = .ok (.fatal failure, s')) :
    a input s = .ok (.fatal failure, s') ∨ ∃ item m, a input s = .ok (.ok item, m) ∧
      repeated a allowed input m = .ok (.fatal failure, s') := by
  unfold repeated at h
  split at h
  · cases h
  · cases h
  · next hfailed =>
    cases h
    exact .inl hfailed
  · next item m hitem =>
    split at h
    · cases h
    · exact .inr ⟨item, m, hitem, map_eq_fatal h⟩

end Inversion

end Step

end Offside.Packrat
