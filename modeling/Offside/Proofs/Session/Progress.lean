import Offside.Proofs.Grammar.Counting
import Offside.Proofs.Session.Transparency

/-!
# Composed parsers and rules move on

Whatever sound tables remember, every composed parser and every rule ends, its successes lie between
their start and the end of the tokens, and they hold a token where their values are located
(`parse_progresses`). So no line of a block begins where the line before it did, and no rule begins
again under the key under which it is running.
-/

namespace Offside.Session

open Packrat Grammar

/-- The location of what a rule yields, which is that of its first part. -/
def resultLocation (family : Family) (value : family.Carrier) : Location :=
  nodeLocation ⟨family, value⟩

/-- What moving on means for a run of a parser from a state. -/
structure Progresses (input : Input) {α : Type} (locate : α → Location) (parser : Parser α)
    (s : State) : Prop where
  /-- The run ends. -/
  ends : parse parser input s ≠ .error .exhausted
  /-- A success lies between its start and the end of the tokens. -/
  within : s.position ≤ input.tokens.size → ∀ found s',
    parse parser input s = .ok (.ok found, s') →
      s.position ≤ s'.position ∧ s'.position ≤ input.tokens.size
  /-- A success that is located holds a token. -/
  passes : ∀ found s', parse parser input s = .ok (.ok found, s') →
    (locate found).isGenerated = false → s.position < s'.position
  /-- So does a line of a block of such successes. -/
  line : ∀ found s', Step.line (parse parser) input s = .ok (.ok found, s') →
    (locate found).isGenerated = false → s.position < s'.position
  /-- No rule is cut off for beginning again under the key under which it is running. -/
  guarded : parser.run (guardedCall (depthBound input) []) input s = parse parser input s

variable {tokens : Array Token} {memoize : Bool} {s : State}

private theorem le_of_lineEnds {input : Input} {s' : State} {ends : List Token}
    (h : Step.many (.token .endOfLine) input s = .ok (.ok ends, s')) :
    s.position ≤ s'.position := by
  have hrow : Row (fun p q _ ↦ input.Within p q) s.position s'.position ends :=
    Step.row_of_many (fun _ _ _ htoken ↦ Step.keeps_token frame_blocks _ htoken)
      (fun _ _ _ _ htoken ↦ by
        obtain ⟨-, -, rfl⟩ := Step.token_eq_ok.1 htoken
        exact input.within_after _) rfl h
  exact (hrow.within id).1

/-- Anchored parsers move on. -/
theorem Anchored.progresses {α : Type} {locate : α → Location} {parser : Parser α}
    (h : Anchored ⟨tokens, false⟩ locate parser) (hsound : Sound tokens s.table) :
    Progresses ⟨tokens, memoize⟩ locate parser s := by
  have haccepts {found : α} {s' : State}
      (hrun : parse parser ⟨tokens, memoize⟩ s = .ok (.ok found, s')) :
      parser.Accepts ⟨tokens, false⟩ (Moves ⟨tokens, false⟩) s.indent s.position s'.position
        found := by
    have hagree := parse_agrees tokens memoize parser s s ⟨rfl, rfl, hsound⟩
    rw [hrun] at hagree
    have hslow := (hagree.eq_of_ok (parse_settles tokens h.grounded s)).1
    change parser.Accepts _ _ _ _ (s.moveTo s'.position).position _
    exact parser.accepts_of_run (call_agrees_self tokens _) (fun _ _ _ _ ↦ call_moves tokens) hslow
  have hpasses {found : α} {s' : State}
      (hrun : parse parser ⟨tokens, memoize⟩ s = .ok (.ok found, s'))
      (hlocated : (locate found).isGenerated = false) : s.position < s'.position :=
    h.lt (haccepts hrun) hlocated
  have hguarded := guardedCall_run tokens memoize h.grounded hsound
  exact {
    ends := hguarded.2 ▸ hguarded.1
    within := fun hs found s' hrun ↦ by
      have hwithin := (haccepts hrun).within Moves.within
      exact ⟨hwithin.1, hwithin.2.trans (Nat.max_le.2 ⟨hs, Nat.le_refl _⟩)⟩
    passes := fun _ _ hrun hlocated ↦ hpasses hrun hlocated
    line := fun found s' hline hlocated ↦ by
      obtain ⟨⟨_, ends⟩, hseq, rfl⟩ := Step.map_eq_ok.1 hline
      obtain ⟨m, hitem, hends⟩ := Step.seq_eq_ok.1 hseq
      exact Nat.lt_of_lt_of_le (hpasses hitem hlocated) (le_of_lineEnds hends)
    guarded := hguarded.2 }

/-- Rules are anchored at their results. -/
theorem anchored_rule (input : Input) (rule : Rule) :
    Anchored input (resultLocation rule.family) (.rule rule) := by
  refine ⟨trivial, fun {indent p q found} h hlocated ↦ ?_⟩
  by_cases hprogram : rule = .program
  · subst hprogram
    refine Nat.lt_of_le_of_ne (Moves.within h).1 fun heq ↦ ?_
    have hvacant : (Program.location found).isGenerated = true := h.2 heq
    have hprogram : (Program.location found).isGenerated = false := hlocated
    rw [hprogram] at hvacant
    cases hvacant
  · exact Moves.lt hprogram h

/-- Whatever the tables remember that runs have filled, or any sound ones, every composed parser and
every rule moves on, wherever it starts and whatever blocks are open there. -/
theorem parse_progresses (tokens : Array Token) (memoize : Bool) :
    (∀ table, Filled ⟨tokens, memoize⟩ table → Sound tokens table) ∧
      ∀ s : State, Sound tokens s.table →
        (∀ combinator : Combinator,
          Progresses ⟨tokens, memoize⟩ Value.location combinator.parser s) ∧
        ∀ rule : Rule, Progresses ⟨tokens, memoize⟩ (resultLocation rule.family) (.rule rule) s :=
  ⟨fun _ hfilled ↦ hfilled.sound, fun _ hsound ↦
    ⟨fun combinator ↦ combinator.anchored.progresses hsound,
      fun rule ↦ (anchored_rule _ rule).progresses hsound⟩⟩

-- The tokens of a line that holds a name.
private def lineTokens : Array Token :=
  #[⟨⟨.identifier, .text "a"⟩, .concrete "f" 1 3 2⟩, ⟨⟨.endOfLine, .none⟩, .concrete "f" 1 4 3⟩,
    ⟨⟨.endOfInput, .none⟩, .concrete "f" 2 1 4⟩]

/-- A block of paths moves on where it is remembered that no member begins. -/
theorem parse_progresses_block :
    ∃ table found s', Filled ⟨lineTokens, true⟩ table ∧ Sound lineTokens table ∧
      parse (Combinator.repetition (.block (.construct .path))).parser ⟨lineTokens, true⟩
        ⟨0, [], table⟩ = .ok (.ok found, s') ∧
      found.location.isGenerated = false ∧ 0 < s'.position ∧ s'.position ≤ 3 ∧
      Progresses ⟨lineTokens, true⟩ (resultLocation .path) (.rule .path) ⟨0, [], table⟩ := by
  obtain ⟨outcome, s, hfirst, found, s', hrun, hlocated⟩ : ∃ outcome s,
      parse (.rule .memberDeclaration) ⟨lineTokens, true⟩ .start = .ok (outcome, s) ∧ ∃ found s',
        parse (Combinator.repetition (.block (.construct .path))).parser ⟨lineTokens, true⟩
          ⟨0, [], s.table⟩ = .ok (.ok found, s') ∧ found.location.isGenerated = false :=
    ⟨_, _, rfl, _, _, rfl, rfl⟩
  have hfilled : Filled ⟨lineTokens, true⟩ s.table := .run _ .empty hfirst
  obtain ⟨hsounds, hprogresses⟩ := parse_progresses lineTokens true
  have hsound := hsounds s.table hfilled
  obtain ⟨hcombinators, hrules⟩ := hprogresses ⟨0, [], s.table⟩ hsound
  have hblock := hcombinators (.repetition (.block (.construct .path)))
  exact ⟨s.table, found, s', hfilled, hsound, hrun, hlocated, hblock.passes _ _ hrun hlocated,
    (hblock.within (Nat.zero_le _) _ _ hrun).2, hrules .path⟩

end Offside.Session
