import Offside.Proofs.Packrat.Orderly
import Offside.Grammar.Productions

/-!
# Watched parses

A parse is watched together with all rules that are called inside it, down to every token, and a
rule that is answered from memory is a part without parts. The watch answers what the parse answers.
No fatal failure is swallowed, changed or outlived (`watch_fatal`), and the open blocks are in
increasing columns wherever a part begins (`watch_columns`).
-/

namespace Offside.Grammar

open Packrat

variable {α : Type}

/-- Watches a rule and its parts, down to the given depth of nested rules. -/
def watchCall : (depth : Nat) → (rule : Rule) → Watch rule.Result
  | 0, _ => .plain fun _ _ => .error .exhausted
  | depth + 1, rule => .remembered rule ((production rule).watch (watchCall depth))

/-- Watches a parse. -/
def watch (parser : Parser α) : Watch α := fun input state =>
  parser.watch (watchCall (depthBound input)) input state

private theorem answers_watchCall (depth : Nat) (rule : Rule) :
    (watchCall depth rule).Answers (call depth rule) := by
  induction depth generalizing rule with
  | zero => exact Watch.answers_plain _
  | succ depth ih =>
    exact Watch.answers_remembered rule (Parser.watch_answers ih (production rule))

private theorem orderly_watchCall (input : Input) (depth : Nat) (rule : Rule) :
    (watchCall depth rule).Orderly input := by
  induction depth generalizing rule with
  | zero => exact fun s ↦ Watched.orderly_silent nofun
  | succ depth ih =>
    exact Watch.orderly_remembered rule (Parser.watch_orderly ih (production rule))

/-- A watched parse answers what the parse answers. -/
theorem watch_answer (parser : Parser α) : (watch parser).Answers (parse parser) :=
  fun input s ↦ parser.watch_answers (answers_watchCall (depthBound input)) input s

/-- A parse is seen to run in order. -/
theorem watch_orderly (parser : Parser α) (input : Input) : (watch parser).Orderly input :=
  fun s ↦ parser.watch_orderly (orderly_watchCall input (depthBound input)) s

/-- Behind a part of a parse that is left with a fatal failure no part begins, and the parse answers
that very failure. -/
theorem watch_fatal (parser : Parser α) (input : Input) (s : State) :
    (watch parser input s).answer = parse parser input s ∧
      ∀ before failure after,
        (watch parser input s).events = before ++ .leave (.fatal failure) :: after →
          (∀ event ∈ after, event = .leave (.fatal failure)) ∧
            ∃ s', parse parser input s = .ok (.fatal failure, s') := by
  have hanswer := watch_answer parser input s
  refine ⟨hanswer, fun before failure after hevents ↦ ?_⟩
  have hstops := (watch_orderly parser input s).stops.after_fatal hevents
  rw [hanswer] at hstops
  exact hstops

-- The tokens of a struct without a name.
private def namelessStruct : Input :=
  ⟨#[⟨⟨.kwStruct, .none⟩, .concrete "f" 1 1 0⟩, ⟨⟨.endOfInput, .none⟩, .concrete "f" 1 7 6⟩], true⟩

/-- A struct without a name fails in the same way when that is remembered, and nothing is tried in
its place. -/
theorem watch_fatal_remembered :
    ∃ failure reached s',
      parse (.rule .structDeclaration) namelessStruct .start = .ok (.fatal failure, reached) ∧
      (watch (.many (.rule .structDeclaration)) namelessStruct reached).events =
        [.enter reached, .enter reached, .leave (.fatal failure), .leave (.fatal failure)] ∧
      parse (.many (.rule .structDeclaration)) namelessStruct reached =
        .ok (.fatal failure, s') := by
  obtain ⟨failure, reached, hfirst, hevents⟩ : ∃ failure reached,
      parse (.rule .structDeclaration) namelessStruct .start = .ok (.fatal failure, reached) ∧
      (watch (.many (.rule .structDeclaration)) namelessStruct reached).events =
        [.enter reached, .enter reached, .leave (.fatal failure), .leave (.fatal failure)] :=
    ⟨_, _, rfl, rfl⟩
  obtain ⟨-, s', hfatal⟩ := (watch_fatal _ namelessStruct reached).2
    [.enter reached, .enter reached]
    failure [.leave (.fatal failure)] hevents
  exact ⟨failure, reached, s', hfirst, hevents, hfatal⟩

/-- A parse closes the blocks that it opens, whatever its outcome. Where a part of it begins, the
blocks that were open are open still; if they stand in increasing columns, all open blocks do. -/
theorem watch_columns (parser : Parser α) (input : Input) (s : State) :
    (watch parser input s).answer = parse parser input s ∧
      (∀ outcome s', parse parser input s = .ok (outcome, s') → s'.columns = s.columns) ∧
      ∀ m, .enter m ∈ (watch parser input s).events →
        s.columns <+: m.columns ∧
          (s.columns.Pairwise (· < ·) → m.columns.Pairwise (· < ·)) := by
  have hanswer := watch_answer parser input s
  have horderly := watch_orderly parser input s
  refine ⟨hanswer, fun outcome s' h ↦ ?_, fun m hm ↦ horderly.nested hm⟩
  rw [State.columns, horderly.blocks (hanswer.trans h), State.columns]

end Offside.Grammar
