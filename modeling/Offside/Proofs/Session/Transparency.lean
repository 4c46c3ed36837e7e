import Offside.Proofs.Grammar.Remembering
import Offside.Session.Action

/-!
# Sessions with and without memory

Whether results are remembered cannot be told from what the actions of a session show, from where
they leave the position and the open blocks, or from the fault that ends the session. Composed
parsers never reach their bound: an item of a block that is located somewhere holds a token
(`Combinator.anchored`).
-/

namespace Offside.Session

open Packrat Grammar

/-! ### Composed parsers end -/

/-- A parser whose successes hold a token where their values are located, and whose blocks hold such
items. -/
structure Anchored (input : Input) {α : Type} (locate : α → Location) (parser : Parser α) :
    Prop where
  grounded : parser.Grounded input (Moves input)
  lt : ∀ {indent p q : Nat} {found : α}, parser.Accepts input (Moves input) indent p q found →
    (locate found).isGenerated = false → p < q

section Anchored

variable {input : Input}

private theorem lt_after_of_located {p : Nat}
    (h : (input.tokenAt p).location.isGenerated = false) : p < input.after p := by
  rw [input.lt_after_iff, ← Nat.not_le]
  intro hp
  rw [input.isGenerated_tokenAt hp] at h
  cases h

private theorem anchored_nodeOf (rule : Rule) :
    Anchored input Value.location (nodeOf rule) := by
  refine ⟨trivial, ?_⟩
  rintro indent p q _ ⟨found, h, rfl⟩ hlocated
  refine Nat.lt_of_le_of_ne (Moves.within h).1 fun heq ↦ ?_
  have hvacant := h.2 heq
  cases rule with
  | program =>
    have hlocation : (Program.location found).isGenerated = false := hlocated
    rw [show (Program.location found).isGenerated = true from hvacant] at hlocation
    cases hlocation
  | _ => exact hvacant

private theorem anchored_construct (construct : Construct) :
    Anchored input Value.location construct.parser := by
  cases construct with
  | block =>
    refine ⟨trivial, ?_⟩
    rintro indent p q _ ⟨found, h, rfl⟩ -
    exact Moves.lt (by simp [sure]) (h : Moves input indent .statementBlock p q found)
  | name =>
    refine ⟨trivial, ?_⟩
    rintro indent p q _ ⟨_, ⟨⟨value, location⟩, ⟨-, -, hlocation, rfl⟩, rfl⟩, rfl⟩ hlocated
    refine lt_after_of_located ?_
    rw [← hlocation]
    exact hlocated
  | _ => exact anchored_nodeOf _

private theorem within_of_accepts {α : Type} {parser : Parser α} {indent p q : Nat} {found : α}
    (h : parser.Accepts input (Moves input) indent p q found) : p ≤ q :=
  (h.within Moves.within).1

-- A judgement changes no value.
private theorem eq_of_outcome {verdict : Verdict} {value found : Value}
    (h : verdict.outcome value = .ok found) : value = found := by
  cases verdict with
  | accept => exact Outcome.ok.inj h
  | reject | abort => cases h
  | judge judgement =>
    unfold Verdict.outcome at h
    dsimp only at h
    cases hjudged : judgement value with
    | ok =>
      rw [hjudged] at h
      exact Outcome.ok.inj h
    | recoverable | fatal =>
      rw [hjudged] at h
      cases h

mutual

/-- Every composed parser is anchored at the location of its values. -/
theorem Combinator.anchored : (combinator : Combinator) →
    Anchored input Value.location combinator.parser
  | .token kind => by
    refine ⟨trivial, ?_⟩
    rintro indent p q _ ⟨_, ⟨-, rfl, rfl⟩, rfl⟩ hlocated
    exact lt_after_of_located hlocated
  | .endOfStatement => by
    refine ⟨trivial, ?_⟩
    rintro indent p q _ ⟨_, -, rfl⟩ hlocated
    cases hlocated
  | .sameLine inner => ⟨inner.anchored.grounded, fun h ↦ inner.anchored.lt h.2⟩
  | .optional inner => by
    refine ⟨inner.anchored.grounded, ?_⟩
    rintro indent p q _ ⟨_, ⟨rfl, -⟩ | ⟨found, rfl, h⟩, rfl⟩ hlocated
    · cases hlocated
    · exact inner.anchored.lt h hlocated
  | .commit inner => ⟨inner.anchored.grounded, inner.anchored.lt⟩
  | .commitAs _ inner => ⟨inner.anchored.grounded, inner.anchored.lt⟩
  | .choice alternatives => anchored_alternatives alternatives
  | .orElse first second => by
    refine ⟨⟨first.anchored.grounded, second.anchored.grounded, trivial⟩, ?_⟩
    rintro indent p q found (h | h | h) hlocated
    · exact first.anchored.lt h hlocated
    · exact second.anchored.lt h hlocated
    · exact h.elim
  | .seq first second => by
    refine ⟨⟨first.anchored.grounded, second.anchored.grounded⟩, ?_⟩
    rintro indent p q _ ⟨_, ⟨m, h, h'⟩, rfl⟩ hlocated
    exact Nat.lt_of_lt_of_le (first.anchored.lt h hlocated) (within_of_accepts h')
  | .skip first second => by
    refine ⟨⟨first.anchored.grounded, second.anchored.grounded⟩, ?_⟩
    rintro indent p q _ ⟨_, ⟨m, h, h'⟩, rfl⟩ hlocated
    exact Nat.lt_of_lt_of_le (first.anchored.lt h hlocated) (within_of_accepts h')
  | .skipLeft first second => by
    refine ⟨⟨first.anchored.grounded, second.anchored.grounded⟩, ?_⟩
    rintro indent p q _ ⟨_, ⟨m, h, h'⟩, rfl⟩ hlocated
    exact Nat.lt_of_le_of_lt (within_of_accepts h) (second.anchored.lt h' hlocated)
  | .check verdict inner => by
    refine ⟨inner.anchored.grounded, ?_⟩
    rintro indent p q found ⟨value, h, hverdict⟩ hlocated
    obtain rfl := eq_of_outcome hverdict
    exact inner.anchored.lt h hlocated
  | .construct construct => anchored_construct construct
  | .rule rule => anchored_nodeOf rule
  | .repetition items => by
    refine ⟨items.anchored.grounded, ?_⟩
    rintro indent p q _ ⟨found, h, rfl⟩ hlocated
    exact items.anchored.lt h hlocated

private theorem anchored_alternatives : (alternatives : List Combinator) →
    Anchored input Value.location (.choice (alternativeParsers alternatives))
  | [] => ⟨trivial, fun h ↦ h.elim⟩
  | alternative :: rest => by
    have hrest := anchored_alternatives rest
    refine ⟨⟨alternative.anchored.grounded, hrest.grounded⟩, ?_⟩
    rintro indent p q found (h | h) hlocated
    · exact alternative.anchored.lt h hlocated
    · exact hrest.lt h hlocated

/-- Every composed parser of lists is anchored at the location of the first item. -/
theorem Repetition.anchored : (items : Repetition) →
    Anchored input Value.headLocation items.parser
  | .many item => by
    refine ⟨item.anchored.grounded, ?_⟩
    rintro indent p q _ (_ | ⟨h, hrow⟩) hlocated
    · cases hlocated
    · exact Nat.lt_of_lt_of_le (item.anchored.lt h hlocated)
        (hrow.within fun h ↦ h.within Moves.within).1
  | .many1 item => by
    refine ⟨item.anchored.grounded, ?_⟩
    rintro indent p q _ ⟨-, _ | ⟨h, hrow⟩⟩ hlocated
    · cases hlocated
    · exact Nat.lt_of_lt_of_le (item.anchored.lt h hlocated)
        (hrow.within fun h ↦ h.within Moves.within).1
  | .commaSeparated item => by
    refine ⟨⟨item.anchored.grounded, trivial, item.anchored.grounded⟩, ?_⟩
    rintro indent p q _ ⟨⟨first, rest⟩, ⟨m, h, hrest⟩, rfl⟩ hlocated
    exact Nat.lt_of_lt_of_le (item.anchored.lt h hlocated) (within_of_accepts hrest)
  | .block item => by
    refine ⟨⟨item.anchored.grounded, fun _ _ _ _ ↦ item.anchored.lt⟩, ?_⟩
    intro indent p q found h hlocated
    have hgrounded : (Parser.block Value.location item.parser).Grounded input (Moves input) :=
      ⟨item.anchored.grounded, fun _ _ _ _ ↦ item.anchored.lt⟩
    refine hgrounded.lt h ?_
    rintro rfl
    cases hlocated
  | .nonEmpty _ items => ⟨items.anchored.grounded, fun h ↦ items.anchored.lt h.2⟩

end

end Anchored

/-! ### Actions and sessions -/

variable {tokens : Array Token}

/-- Two states that only their tables tell apart, the second of which is sound. -/
structure Twin (tokens : Array Token) (s t : State) : Prop where
  position : s.position = t.position
  blocks : s.blocks = t.blocks
  sound : Sound tokens t.table

/-- Two answers that only tables tell apart: the same fault, which is not that of the bound, or the
same result with states that are twins. -/
inductive Same {α : Type} (tokens : Array Token) :
    Except Fault (α × State) → Except Fault (α × State) → Prop where
  | fault (fault : Fault) (hne : fault ≠ .exhausted) : Same tokens (.error fault) (.error fault)
  | answer (result : α) {s t : State} (twin : Twin tokens s t) :
      Same tokens (.ok (result, s)) (.ok (result, t))

private theorem Same.map {α β : Type} (f : α → β) {x y : Except Fault (α × State)}
    (h : Same tokens x y) :
    Same tokens (x.map fun (result, state) ↦ (f result, state))
      (y.map fun (result, state) ↦ (f result, state)) := by
  cases h with
  | fault fault hne => exact .fault fault hne
  | answer result twin => exact .answer (f result) twin

private theorem parse_same {α : Type} (memoize : Bool) {parser : Parser α}
    (hgrounded : parser.Grounded ⟨tokens, false⟩ (Moves ⟨tokens, false⟩)) {s t : State}
    (h : Twin tokens s t) :
    Same tokens (parse parser ⟨tokens, false⟩ s) (parse parser ⟨tokens, memoize⟩ t) := by
  have hindent : s.indent = t.indent := by rw [State.indent, h.blocks, State.indent]
  have hsettles := parse_settles tokens hgrounded s
  have hagree := parse_agrees tokens memoize parser s t ⟨h.position, hindent, h.sound⟩
  unfold Step.Settles at hsettles
  revert hsettles hagree
  generalize parse parser ⟨tokens, false⟩ s = x, parse parser ⟨tokens, memoize⟩ t = y
  rintro hne (_ | fault | ⟨outcome, position, table, sound⟩)
  · exact absurd rfl hne
  · exact .fault fault fun h ↦ hne (congrArg _ h)
  · exact .answer outcome ⟨rfl, h.blocks, sound⟩

/-- One action on twins has the same effect. -/
theorem perform_same (memoize : Bool) {s t : State} (h : Twin tokens s t) (action : Action) :
    Same tokens (perform ⟨tokens, false⟩ s action) (perform ⟨tokens, memoize⟩ t action) := by
  cases action with
  | program =>
    have hparse : Same tokens (Program.parseAt ⟨tokens, false⟩ s)
        (Program.parseAt ⟨tokens, memoize⟩ t) :=
      parse_same memoize (grounded_rule tokens .program) h
    exact hparse.map fun outcome ↦ Observation.program outcome.toExcept
  | parse combinator =>
    exact (parse_same memoize combinator.anchored.grounded h).map Observation.outcome
  | peek ahead =>
    unfold perform
    rw [h.position]
    exact .answer _ h
  | hasNext =>
    unfold perform State.current
    rw [h.position]
    exact .answer _ h
  | moveTo position => exact .answer _ ⟨rfl, h.blocks, h.sound⟩
  | advance =>
    unfold perform State.current
    rw [State.advance_eq, State.advance_eq, h.position]
    exact .answer _ ⟨rfl, h.blocks, h.sound⟩
  | previous =>
    have hprevious : s.previous? ⟨tokens, false⟩ = t.previous? ⟨tokens, memoize⟩ := by
      unfold State.previous?
      rw [h.position]
    unfold perform
    rw [hprevious]
    cases t.previous? ⟨tokens, memoize⟩ <;> exact .answer _ h

/-- What is seen of an action: what it shows, and the position and the open blocks it leaves. -/
def seen (entry : Observation × State) : Observation × Nat × List Nat :=
  (entry.1, entry.2.position, entry.2.blocks)

/-- The states of a session, from the start to the last that an action leaves. -/
def reached (input : Input) (actions : List Action) : List State :=
  .start :: (performAll input .start actions).1.map Prod.snd

/-- Actions on twins show the same, one after the other, and keep the tables sound. -/
theorem performAll_same (memoize : Bool) (actions : List Action) {s t : State}
    (h : Twin tokens s t) :
    (performAll ⟨tokens, memoize⟩ t actions).1.map seen =
        (performAll ⟨tokens, false⟩ s actions).1.map seen ∧
      (performAll ⟨tokens, memoize⟩ t actions).2 = (performAll ⟨tokens, false⟩ s actions).2 ∧
      (performAll ⟨tokens, false⟩ s actions).2 ≠ some .exhausted ∧
      ∀ entry ∈ (performAll ⟨tokens, memoize⟩ t actions).1, Sound tokens entry.2.table := by
  induction actions generalizing s t with
  | nil => exact ⟨rfl, rfl, by simp [performAll], by simp [performAll]⟩
  | cons action rest ih =>
    have hstep := perform_same memoize h action
    unfold performAll
    revert hstep
    generalize perform ⟨tokens, false⟩ s action = x, perform ⟨tokens, memoize⟩ t action = y
    rintro (⟨fault, hne⟩ | ⟨observation, twin⟩)
    · exact ⟨rfl, rfl, by simpa using hne, by simp⟩
    · obtain ⟨hseen, hfault, hne, hsound⟩ := ih twin
      refine ⟨?_, hfault, hne, ?_⟩
      · simp only [List.map_cons, hseen]
        simp only [seen, twin.position, twin.blocks]
      · rintro entry (_ | ⟨_, hentry⟩)
        · exact twin.sound
        · exact hsound entry hentry

private theorem twin_start : Twin tokens .start .start :=
  ⟨rfl, rfl, sound_empty tokens⟩

/-- What a session remembers is sound. -/
theorem sound_of_reached {memoize : Bool} {actions : List Action} {s : State}
    (h : s ∈ reached ⟨tokens, memoize⟩ actions) : Sound tokens s.table := by
  obtain rfl | h := List.mem_cons.1 h
  · exact sound_empty tokens
  · obtain ⟨entry, hentry, rfl⟩ := List.mem_map.1 h
    exact (performAll_same memoize actions twin_start).2.2.2 entry hentry

/-- What a rule answers, and the position it reaches. -/
def answer (input : Input) (rule : Rule) (s : State) : Except Fault (Outcome rule.Result × Nat) :=
  (parse (.rule rule) input s).map fun (outcome, reached) ↦ (outcome, reached.position)

private theorem answer_eq {memoize : Bool} {s t : State} (rule : Rule)
    (hposition : s.position = t.position) (hindent : s.indent = t.indent)
    (hsound : Sound tokens t.table) :
    answer ⟨tokens, false⟩ rule s = answer ⟨tokens, memoize⟩ rule t :=
  parse_rule_position tokens memoize rule hposition hindent hsound

/-- Whether results are remembered cannot be told from a session: the actions show the same, at the
same positions and with the same open blocks, up to the same fault if there is one, which is never
that of the bound. Position and indent determine what a rule answers, whatever was remembered
before. -/
theorem performAll_memoize (tokens : Array Token) (actions : List Action) :
    (performAll ⟨tokens, true⟩ .start actions).1.map seen =
        (performAll ⟨tokens, false⟩ .start actions).1.map seen ∧
      (performAll ⟨tokens, true⟩ .start actions).2 =
        (performAll ⟨tokens, false⟩ .start actions).2 ∧
      (performAll ⟨tokens, false⟩ .start actions).2 ≠ some .exhausted ∧
      ∀ (memoize : Bool) (others : List Action), ∀ s ∈ reached ⟨tokens, true⟩ actions,
        ∀ t ∈ reached ⟨tokens, memoize⟩ others, s.position = t.position → s.indent = t.indent →
          ∀ rule, answer ⟨tokens, true⟩ rule s = answer ⟨tokens, memoize⟩ rule t := by
  obtain ⟨hseen, hfault, hne, -⟩ := performAll_same true actions (@twin_start tokens)
  refine ⟨hseen, hfault, hne, ?_⟩
  intro memoize others s hs t ht hposition hindent rule
  exact (answer_eq rule rfl rfl (sound_of_reached hs)).symm.trans
    (answer_eq rule hposition hindent (sound_of_reached ht))

end Offside.Session
