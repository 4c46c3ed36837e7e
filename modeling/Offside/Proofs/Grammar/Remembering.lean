import Offside.Proofs.Grammar.Depth

/-!
# Remembered results

A table is sound if each of its results is what the rule answers, without memory, wherever a state
stands at the position and the indent of the key (`Sound`). Parsing keeps tables sound, and a parse
that remembers answers as one that does not (`parse_agrees`). Without memory, a rule answers what
its production does (`parse_rule`), so that the bound on nested rules need not be mentioned again.
-/

namespace Offside

open Packrat

/-- A step that ends agrees only with the same answer. -/
theorem Packrat.Step.Agrees.eq_of_settles {α : Type} {tokens : Array Token} {a b : Step α}
    (h : Agrees tokens false (fun _ ↦ True) a b) (hb : Agrees tokens false (fun _ ↦ True) b b)
    {s : State} (hs : a.Settles ⟨tokens, false⟩ s) : b ⟨tokens, false⟩ s = a ⟨tokens, false⟩ s := by
  have hagree := h s s ⟨rfl, rfl, trivial⟩
  have hmove (outcome : Outcome α) (s' : State) (h : b ⟨tokens, false⟩ s = .ok (outcome, s')) :
      s' = s.moveTo s'.position := hb.moveTo_eq h
  unfold Step.Settles at hs
  revert hs hmove hagree
  generalize a ⟨tokens, false⟩ s = x, b ⟨tokens, false⟩ s = y
  intro hs hagree hmove
  cases hagree with
  | exhausted => exact absurd rfl hs
  | fault => rfl
  | answer outcome position table => rw [hmove _ _ rfl]

namespace Grammar

variable (tokens : Array Token)

/-- A rule that ends at some depth gives the answer of a parse. -/
theorem call_eq_parse {depth : Nat} {rule : Rule} {s : State}
    (h : (call depth rule).Settles ⟨tokens, false⟩ s) :
    call depth rule ⟨tokens, false⟩ s = parse (.rule rule) ⟨tokens, false⟩ s := by
  have hbound : (call (depthBound ⟨tokens, false⟩) rule).Settles ⟨tokens, false⟩ s :=
    call_settles tokens (room_lt_depthBound ⟨tokens, false⟩ rule s.position)
  change _ = call (depthBound ⟨tokens, false⟩) rule ⟨tokens, false⟩ s
  generalize depthBound ⟨tokens, false⟩ = bound at hbound ⊢
  obtain ⟨more, rfl⟩ | ⟨more, rfl⟩ := (Nat.le_total depth bound).imp Nat.exists_eq_add_of_le
    Nat.exists_eq_add_of_le
  · exact ((call_agrees_call_add tokens depth more rule).eq_of_settles
      (call_agrees_self tokens _ rule) h).symm
  · exact (call_agrees_call_add tokens bound more rule).eq_of_settles
      (call_agrees_self tokens _ rule) hbound

/-- Without memory, a rule answers the same in all states at one position and indent. -/
theorem parse_rule_at {rule : Rule} {s t : State} {outcome : Outcome rule.Result}
    {stop : Nat}
    (hposition : s.position = t.position) (hindent : s.indent = t.indent)
    (h : parse (.rule rule) ⟨tokens, false⟩ s = .ok (outcome, s.moveTo stop)) :
    parse (.rule rule) ⟨tokens, false⟩ t = .ok (outcome, t.moveTo stop) := by
  have hself := call_agrees_self tokens (depthBound ⟨tokens, false⟩) rule
  have hagree := hself s t ⟨hposition, hindent, trivial⟩
  rw [show call _ rule _ s = _ from h] at hagree
  obtain ⟨-, table, -, ht⟩ := hagree.of_ok
  have hmove := hself.moveTo_eq ht
  change call _ rule _ t = _
  rw [ht]
  exact congrArg (fun t' ↦ Except.ok (outcome, t')) hmove

/-- Every result of the table is what its rule answers without memory at the position and indent of
its key. -/
def Sound (table : Table) : Prop :=
  ∀ (key : Key) (entry : Entry), table.entries[key]? = some entry →
    ∃ outcome : Outcome key.rule.Result, entry.outcome = outcome.map (⟨key.rule.family, ·⟩) ∧
      ∀ s : State, s.position = key.position → s.indent = key.indent →
        parse (.rule key.rule) ⟨tokens, false⟩ s = .ok (outcome, s.moveTo entry.stop)

/-- The empty table is sound, having no result. -/
theorem sound_empty : Sound tokens .empty := by
  intro key entry h
  simp [Table.empty] at h

/-- A sound table knows nothing of a rule, or what the rule answers. -/
theorem Sound.lookup {table : Table} (h : Sound tokens table) (key : Key) :
    (table.entries[key]? = none ∧
        table.lookup key key.rule.family = .ok (none, { table with misses := table.misses + 1 })) ∨
      ∃ outcome stop, table.lookup key key.rule.family =
          .ok (some (outcome, stop), { table with hits := table.hits + 1 }) ∧
        ∀ s : State, s.position = key.position → s.indent = key.indent →
          parse (.rule key.rule) ⟨tokens, false⟩ s = .ok (outcome, s.moveTo stop) := by
  unfold Table.lookup
  cases hentry : table.entries[key]? with
  | none => exact .inl ⟨rfl, rfl⟩
  | some entry =>
    obtain ⟨outcome, houtcome, hanswer⟩ := h key entry hentry
    obtain ⟨_, stop⟩ := entry
    cases houtcome
    refine .inr ⟨outcome, stop, ?_, hanswer⟩
    cases outcome <;> simp

/-- Storing what a rule answers keeps a table sound. -/
theorem Sound.store {table : Table} (h : Sound tokens table) (key : Key)
    {outcome : Outcome key.rule.Result} {stop : Nat}
    (hanswer : ∀ s : State, s.position = key.position → s.indent = key.indent →
      parse (.rule key.rule) ⟨tokens, false⟩ s = .ok (outcome, s.moveTo stop)) :
    Sound tokens (table.store key outcome stop) := by
  intro other entry hentry
  rw [Table.getElem?_store] at hentry
  split at hentry
  · next hkey =>
    obtain ⟨rfl, -⟩ := hkey
    cases hentry
    exact ⟨outcome, rfl, hanswer⟩
  · exact h other entry hentry

/-- Of two invariants of sound tables the first is kept when a rule is looked up under a key and its
answer is stored there, if meanwhile its body keeps the second. -/
structure Remembers (Keeps Inside : Table → Prop) (key : Key) : Prop where
  sound : ∀ {table : Table}, Keeps table → Sound tokens table
  hit : ∀ {table : Table}, Keeps table → Keeps { table with hits := table.hits + 1 }
  miss : ∀ {table : Table}, Keeps table → table.entries[key]? = none →
    Inside { table with misses := table.misses + 1 }
  store : ∀ {table : Table} {outcome : Outcome key.rule.Result} {stop : Nat}, Inside table →
    (∀ s : State, s.position = key.position → s.indent = key.indent →
      parse (.rule key.rule) ⟨tokens, false⟩ s = .ok (outcome, s.moveTo stop)) →
    Keeps (table.store key outcome stop)

/-- Remembering the answers of a body agrees with an answer that agrees with the body and is that of
the rule. -/
theorem Remembers.agree {Keeps Inside : Table → Prop} {rule : Rule} {body : Step rule.Result}
    {s t : State} {x : Except Fault (Outcome rule.Result × State)}
    (h : Remembers tokens Keeps Inside ⟨rule, t.position, t.indent⟩) (like : Alike Keeps s t)
    (hx : x ≠ .error .exhausted → x = parse (.rule rule) ⟨tokens, false⟩ s)
    (hbody : ∀ table, Inside table → Agree Inside s { t with table } x
      (body ⟨tokens, true⟩ { t with table })) :
    Agree Keeps s t x (Step.remembered rule body ⟨tokens, true⟩ t) := by
  simp only [Step.remembered, if_true]
  obtain ⟨hfresh, hlookup⟩ | ⟨outcome, stop, hlookup, hanswer⟩ :=
    (h.sound like.keeps).lookup tokens ⟨rule, t.position, t.indent⟩
  · rw [hlookup]
    have hrun := hbody _ (h.miss like.keeps hfresh)
    revert hrun hx
    dsimp only
    generalize body ⟨tokens, true⟩ _ = y
    rintro hx (_ | fault | ⟨outcome, position, table, keeps⟩)
    · exact .exhausted _
    · exact .fault _
    · refine .answer outcome position _ (h.store keeps fun m hposition hindent ↦ ?_)
      exact parse_rule_at tokens (like.position.trans hposition.symm)
        (like.indent.trans hindent.symm)
        (hx (by simp)).symm
  · rw [hlookup]
    by_cases hne : x = .error .exhausted
    · rw [hne]
      exact .exhausted _
    · rw [hx hne, hanswer s like.position like.indent]
      exact .answer outcome stop _ (h.hit like.keeps)

/-- Soundness is kept by looking up and storing results. -/
theorem remembers_sound (key : Key) :
    Remembers tokens (Sound tokens) (Sound tokens) key where
  sound h := h
  hit h := h
  miss h _ := h
  store h hanswer := h.store tokens key hanswer

/-- At every depth, a rule answers with memory what it answers without. -/
theorem call_agrees (memoize : Bool) (depth : Nat) (rule : Rule) :
    Step.Agrees tokens memoize (Sound tokens) (call depth rule) (call depth rule) := by
  induction depth generalizing rule with
  | zero => exact fun _ _ _ ↦ .exhausted _
  | succ depth ih =>
    intro s t like
    cases memoize with
    | false => simpa [call, Step.remembered] using (production rule).run_agrees ih s t like
    | true =>
      have hslow : call (depth + 1) rule ⟨tokens, false⟩ s =
          (production rule).run (call depth) ⟨tokens, false⟩ s := by
        simp [call, Step.remembered]
      refine (remembers_sound tokens _).agree tokens like (call_eq_parse tokens)
        fun table hsound ↦ ?_
      rw [hslow]
      exact (production rule).run_agrees ih s { t with table }
        ⟨like.position, like.indent, hsound⟩

/-- A parse with memory answers what it does without. -/
theorem parse_agrees {α : Type} (memoize : Bool) (parser : Parser α) :
    Step.Agrees tokens memoize (Sound tokens) (parse parser) (parse parser) := by
  intro s t like
  have hdepth : depthBound ⟨tokens, memoize⟩ = depthBound ⟨tokens, false⟩ := rfl
  unfold parse
  rw [hdepth]
  exact parser.run_agrees (call_agrees tokens memoize _) s t like

private theorem settles_depthBound (rule : Rule) (s : State) :
    (call (depthBound ⟨tokens, false⟩) rule).Settles ⟨tokens, false⟩ s :=
  call_settles tokens (room_lt_depthBound ⟨tokens, false⟩ rule s.position)

/-- A parse stays within the bound on nested rules, whichever way it ends. -/
theorem parse_settles {α : Type} {parser : Parser α}
    (h : parser.Grounded ⟨tokens, false⟩ (Moves ⟨tokens, false⟩)) (s : State) :
    (parse parser).Settles ⟨tokens, false⟩ s := by
  have hrules := settles_depthBound tokens
  unfold Step.Settles parse
  generalize depthBound ⟨tokens, false⟩ = depth at hrules ⊢
  exact Parser.run_settles (call_agrees_self tokens depth) (fun _ _ _ _ ↦ call_moves tokens)
    Moves.within Moves.lt parser h (parser.startsAmong_all sure)
    ⟨fun rule m _ _ ↦ hrules rule m, fun rule m _ _ ↦ hrules rule m⟩

/-- A single rule holds no block of its own. -/
theorem grounded_rule (rule : Rule) :
    (Parser.rule rule).Grounded ⟨tokens, false⟩ (Moves ⟨tokens, false⟩) := trivial

/-- A rule answers, at the same position, what it answers without memory, whatever sound tables
remember. -/
theorem parse_rule_position (memoize : Bool) (rule : Rule) {s t : State}
    (hposition : s.position = t.position) (hindent : s.indent = t.indent)
    (hsound : Sound tokens t.table) :
    (parse (.rule rule) ⟨tokens, false⟩ s).map
        (fun (outcome, reached) ↦ (outcome, reached.position)) =
      (parse (.rule rule) ⟨tokens, memoize⟩ t).map
        fun (outcome, reached) ↦ (outcome, reached.position) := by
  have hsettles := parse_settles tokens (grounded_rule tokens rule) s
  have hagree := parse_agrees tokens memoize (.rule rule) s t ⟨hposition, hindent, hsound⟩
  unfold Step.Settles at hsettles
  revert hsettles hagree
  generalize parse (.rule rule) ⟨tokens, false⟩ s = x, parse (.rule rule) ⟨tokens, memoize⟩ t = y
  rintro hne (_ | fault | ⟨outcome, position, table, -⟩)
  · exact absurd rfl hne
  · rfl
  · rfl

/-- Where the state stands, the rule answers the outcome, and stops at the position. -/
def Answers (input : Input) (s : State) (rule : Rule) (outcome : Outcome rule.Result)
    (stop : Nat) : Prop :=
  ∃ s', parse (.rule rule) input s = .ok (outcome, s') ∧ s'.position = stop

private theorem answers_iff_map {input : Input} {s : State} {rule : Rule}
    {outcome : Outcome rule.Result} {stop : Nat} :
    Answers input s rule outcome stop ↔ (parse (.rule rule) input s).map
      (fun (outcome, reached) ↦ (outcome, reached.position)) = .ok (outcome, stop) := by
  unfold Answers
  obtain fault | ⟨found, reached⟩ := parse (.rule rule) input s
  · simp [Except.map]
  · simp [Except.map, and_assoc]

/-- What a sound table remembers has no say in what a rule answers. -/
theorem answers_iff {memoize : Bool} {s : State} {rule : Rule} {outcome : Outcome rule.Result}
    {stop : Nat} (hsound : Sound tokens s.table) :
    Answers ⟨tokens, memoize⟩ s rule outcome stop ↔
      parse (.rule rule) ⟨tokens, false⟩ s = .ok (outcome, s.moveTo stop) := by
  rw [answers_iff_map, ← parse_rule_position tokens memoize rule rfl rfl hsound, ← answers_iff_map]
  constructor
  · rintro ⟨s', hs', rfl⟩
    rw [← (call_agrees_self tokens _ rule).moveTo_eq hs']
    exact hs'
  · exact fun hs ↦ ⟨_, hs, rfl⟩

/-- The rule fails fatally where the state stands. -/
def FailsFatally (input : Input) (s : State) (rule : Rule) (failure : Failure) : Prop :=
  ∃ stop, Answers input s rule (.fatal failure) stop

/-- The answer is the fatal failure. -/
def isFatal {α : Type} (failure : Failure) : Except Fault (Outcome α × State) → Bool
  | .ok (.fatal found, _) => found = failure
  | _ => false

/-- A fatal failure of a run can be checked by running it. -/
theorem failsFatally_of_isFatal {input : Input} {s : State} {rule : Rule} {failure : Failure}
    (h : isFatal failure (parse (.rule rule) input s) = true) :
    FailsFatally input s rule failure := by
  unfold FailsFatally Answers
  revert h
  generalize parse (.rule rule) input s = answer
  intro h
  obtain fault | ⟨found | missed | found, reached⟩ := answer
  · cases h
  · cases h
  · cases h
  · obtain rfl : found = failure := of_decide_eq_true h
    exact ⟨reached.position, reached, rfl, rfl⟩

/-- Without memory, a rule reads what its production reads. -/
theorem parse_rule (rule : Rule) (s : State) :
    parse (.rule rule) ⟨tokens, false⟩ s = parse (production rule) ⟨tokens, false⟩ s := by
  have hrules := settles_depthBound tokens
  unfold parse
  generalize depthBound ⟨tokens, false⟩ = depth at hrules ⊢
  have hcall (m : State) : call (depth + 1) rule ⟨tokens, false⟩ m =
      (production rule).run (call depth) ⟨tokens, false⟩ m := by
    simp [call, Step.remembered]
  -- One more nesting changes nothing, since the given depth suffices.
  have hdeeper := (call_agrees_call_add tokens depth 1 rule).eq_of_settles
    (call_agrees_self tokens _ rule) (hrules rule s)
  exact hdeeper.symm.trans (hcall s)

/-- What every production has if the rules inside have it, every success of a parse has that starts
from a sound table. -/
theorem parse_induction {Law : Nat → (rule : Rule) → Nat → Nat → rule.Result → Prop}
    (hstep : ∀ {indent rule p q found},
      (production rule).Accepts ⟨tokens, false⟩ Law indent p q found → Law indent rule p q found)
    {memoize : Bool} {rule : Rule} {s s' : State} {found : rule.Result}
    (hsound : Sound tokens s.table)
    (h : parse (.rule rule) ⟨tokens, memoize⟩ s = .ok (.ok found, s')) :
    Law s.indent rule s.position s'.position found ∧ s'.blocks = s.blocks := by
  have hagree := parse_agrees tokens memoize (.rule rule) s s ⟨rfl, rfl, hsound⟩
  rw [h] at hagree
  obtain ⟨hslow, hblocks, -⟩ := hagree.eq_of_ok (parse_settles tokens (grounded_rule tokens rule) s)
  have hlaw : Law s.indent rule s.position (s.moveTo s'.position).position found :=
    call_induction tokens hstep hslow
  exact ⟨hlaw, hblocks⟩

end Grammar

end Offside
