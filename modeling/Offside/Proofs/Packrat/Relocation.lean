import Mathlib.Order.Monotone.Basic
import Offside.Packrat.Parser
import Offside.Proofs.Tree.Relocation

/-!
# Parsing at other locations

A reindentation moves locations about in their file so that the order of columns stays
(`Reindentation`). A step that looks at locations only to compare columns answers on moved tokens
what it answers on the tokens themselves, at the same position and with the moved locations
(`Step.Relocates`). All ways to combine parsers keep this, where the functions inside commute with
moving locations (`Parser.Natural`, `Parser.run_relocates`).
-/

namespace Offside

open Packrat

/-- A map of locations that keeps the file, what is located nowhere and the order of columns; rows
and offsets may change. Outside all blocks the column is zero, which stays. -/
structure Reindentation where
  column : Nat → Nat
  location : Location → Location
  strictMono : StrictMono column
  column_zero : column 0 = 0
  location_generated : ∀ file, location (.generated file) = .generated file
  location_concrete : ∀ file row c offset, ∃ row' offset',
    location (.concrete file row c offset) = .concrete file row' (column c) offset'

namespace Reindentation

variable (g : Reindentation)

private theorem file_location (location : Location) : (g.location location).file =
    location.file := by
  cases location with
  | generated file => rw [g.location_generated]
  | concrete file row c offset =>
    obtain ⟨row', offset', h⟩ := g.location_concrete file row c offset
    rw [h]
    rfl

private theorem column?_location (location : Location) :
    (g.location location).column? = location.column?.map g.column := by
  cases location with
  | generated file => rw [g.location_generated]; rfl
  | concrete file row c offset =>
    obtain ⟨row', offset', h⟩ := g.location_concrete file row c offset
    rw [h]
    rfl

private theorem isGenerated_location (location : Location) :
    (g.location location).isGenerated = location.isGenerated := by
  cases location with
  | generated file => rw [g.location_generated]
  | concrete file row c offset =>
    obtain ⟨row', offset', h⟩ := g.location_concrete file row c offset
    rw [h]
    rfl

/-- Two columns are the same if they are after moving. -/
theorem column?_eq_some_iff (location : Location) (c : Nat) :
    (g.location location).column? = some (g.column c) ↔ location.column? = some c := by
  rw [g.column?_location, Option.map_eq_some_iff]
  constructor
  · rintro ⟨c', h, heq⟩
    rw [h, g.strictMono.injective heq]
  · exact fun h ↦ ⟨c, h, rfl⟩

/-- The token at the moved location. -/
def token (token : Token) : Token := ⟨token.toTerminal, g.location token.location⟩

/-- The input at moved locations. -/
def input (input : Input) : Input := ⟨input.tokens.map g.token, input.memoize⟩

/-- The state with blocks in moved columns. -/
def state (state : State) : State := { state with blocks := state.blocks.map g.column }

/-- The cause with its column or its location moved. -/
def problem : Problem → Problem
  | .expectedElse column => .expectedElse (g.column column)
  | .severalVariadics start => .severalVariadics (g.location start)
  | problem => problem

/-- The failure at the moved location. -/
def failure (failure : Failure) : Failure :=
  ⟨g.location failure.location, g.problem failure.problem⟩

/-- The outcome with a value moved by a function, or the failure moved. -/
def outcome {α : Type} (value : α → α) : Outcome α → Outcome α
  | .ok found => .ok (value found)
  | .recoverable failed => .recoverable (g.failure failed)
  | .fatal failed => .fatal (g.failure failed)

/-- What a rule yields with its locations moved. -/
def result : (family : Family) → family.Carrier → family.Carrier
  | .program => Program.relocate g.location
  | .struct => Struct.relocate g.location
  | .structItem => StructItem.relocate g.location
  | .member => Member.relocate g.location
  | .handler => Handler.relocate g.location
  | .parameters => List.map (Parameter.relocate g.location)
  | .statement => Statement.relocate g.location
  | .statements => List.map (Statement.relocate g.location)
  | .path => Path.relocate g.location
  | .expression => Expression.relocate g.location
  | .pattern => Pattern.relocate g.location
  | .typeExpr => TypeExpr.relocate g.location

/-! ### What is read of moved tokens -/

variable (i : Input) (s : State)

private theorem tokenAt_input (position : Nat) :
    (g.input i).tokenAt position = g.token (i.tokenAt position) := by
  have hfile : (g.input i).file = i.file := by
    unfold Input.file input
    dsimp only
    rw [Array.getElem?_map]
    cases i.tokens[0]? with
    | none => rfl
    | some first => exact g.file_location first.location
  unfold Input.tokenAt
  change (i.tokens.map g.token)[position]?.getD _ = _
  rw [Array.getElem?_map]
  cases i.tokens[position]? with
  | some token => rfl
  | none =>
    change (⟨⟨.endOfInput, .none⟩, .generated (g.input i).file⟩ : Token) =
      ⟨⟨.endOfInput, .none⟩, g.location (.generated i.file)⟩
    rw [hfile, g.location_generated]

private theorem current_state : (g.state s).current (g.input i) = g.token (s.current i) :=
  g.tokenAt_input i s.position

private theorem lineEnds_input (position : Nat) :
    (g.input i).lineEnds position = i.lineEnds position := by
  unfold Input.lineEnds input
  dsimp only
  rw [Array.toList_map, ← List.map_drop, List.takeWhile_map, List.length_map]
  rfl

private theorem attempts_input (position : Nat) : (g.input i).attempts position =
    i.attempts position := by
  unfold Input.attempts input
  rw [Array.size_map]

/-- The indent of a relocated state is the relocated indent. -/
theorem indent_state : (g.state s).indent = g.column s.indent := by
  obtain ⟨position, blocks, table⟩ := s
  cases blocks with
  | nil => exact g.column_zero.symm
  | cons column outer => rfl

private theorem advance_state : (g.state s).advance (g.input i) = g.state (s.advance i) := by
  unfold State.advance
  change (if s.position < (i.tokens.map g.token).size then _ else _) = _
  rw [Array.size_map]
  split <;> rfl

private theorem previous?_state :
    (g.state s).previous? (g.input i) = (s.previous? i).map g.token := by
  obtain ⟨position, blocks, table⟩ := s
  cases position with
  | zero => rfl
  | succ before => exact Array.getElem?_map

private theorem isBehindLineEnd_state :
    (g.state s).isBehindLineEnd (g.input i) = s.isBehindLineEnd i := by
  unfold State.isBehindLineEnd
  rw [g.previous?_state]
  cases s.previous? i <;> rfl

/-! ### Answers -/

/-- An answer with its outcome and its blocks moved; a fault stays. -/
def answer {α : Type} (value : α → α) :
    Except Fault (Outcome α × State) → Except Fault (Outcome α × State) :=
  Except.map fun (found, reached) ↦ (g.outcome value found, g.state reached)

end Reindentation

namespace Packrat

variable {g : Reindentation} {i : Input} {α β : Type} {ρ : α → α} {σ : β → β}

namespace Step

/-- On moved tokens, from moved blocks, the first step answers what the second answers, moved. -/
def Relocates (g : Reindentation) (ρ : α → α) (i : Input) (a b : Step α) : Prop :=
  ∀ s, a (g.input i) (g.state s) = g.answer ρ (b i s)

variable {a b : Step α} {c d : Step β}

private theorem relocates_succeed {value value' : α} (h : value' = ρ value) :
    Relocates g ρ i (succeed value') (succeed value) :=
  fun _ ↦ h ▸ rfl

private theorem relocates_failAt (token : Token) {problem problem' : Terminal → Problem}
    (h : ∀ terminal, problem' terminal = g.problem (problem terminal)) :
    Relocates g ρ i (failAt (g.token token) problem') (failAt token problem) := by
  intro s
  unfold failAt
  rw [h]
  rfl

private theorem relocates_fail {problem problem' : Terminal → Problem}
    (h : ∀ terminal, problem' terminal = g.problem (problem terminal)) :
    Relocates g ρ i (fail problem') (fail problem) := by
  intro s
  unfold fail
  rw [g.current_state]
  exact relocates_failAt _ h s

private theorem relocates_here : Relocates g g.location i here here := by
  intro s
  unfold here
  rw [g.current_state]
  rfl

private theorem relocates_token (kind : TokenKind) :
    Relocates g g.token i (token kind) (token kind) := by
  intro s
  unfold token
  rw [g.current_state, g.advance_state]
  dsimp only
  change (if (s.current i).kind = kind then _ else _) = _
  split
  · rfl
  · exact relocates_fail (fun _ ↦ by rfl) s

private theorem relocates_value (kind : TokenKind) (read : Payload → Option α) :
    Relocates g (Prod.map id g.location) i (value kind read) (value kind read) := by
  intro s
  unfold value
  rw [relocates_token kind s]
  obtain fault | ⟨found | failure | failure, reached⟩ := token kind i s
  · rfl
  · have hpayload : (g.token found).payload = found.payload := rfl
    have hlocation : (g.token found).location = g.location found.location := rfl
    cases hread : read found.payload <;>
      simp [Reindentation.answer, Reindentation.outcome, Except.map, hpayload, hlocation, hread]
  · rfl
  · rfl

private theorem relocates_endOfStatement : Relocates g id i endOfStatement endOfStatement := by
  intro s
  unfold endOfStatement
  rw [g.current_state, g.advance_state, g.isBehindLineEnd_state]
  change (if (s.current i).kind = .endOfLine then _ else _) = _
  split
  · rfl
  · split
    · rfl
    · exact relocates_fail (fun _ ↦ by rfl) s

private theorem relocates_sameLine (h : Relocates g ρ i a b) :
    Relocates g ρ i (sameLine a) (sameLine b) := by
  intro s
  unfold sameLine
  rw [g.isBehindLineEnd_state]
  split
  · exact relocates_fail (fun _ ↦ by rfl) s
  · exact h s

private theorem relocates_inBlockColumn (h : Relocates g ρ i a b) :
    Relocates g ρ i (inBlockColumn a) (inBlockColumn b) := by
  intro s
  unfold inBlockColumn
  rw [g.current_state, g.indent_state]
  have hiff : (g.token (s.current i)).location.column? = some (g.column s.indent) ↔
      (s.current i).location.column? = some s.indent := g.column?_eq_some_iff _ _
  by_cases hcolumn : (s.current i).location.column? = some s.indent
  · rw [if_pos hcolumn, if_pos (hiff.2 hcolumn)]
    exact h s
  · rw [if_neg hcolumn, if_neg (hcolumn ∘ hiff.1)]
    exact relocates_fail (fun _ ↦ by rfl) s

private theorem relocates_onKind {steps steps' : TokenKind → Step α}
    (h : ∀ kind, Relocates g ρ i (steps kind) (steps' kind)) :
    Relocates g ρ i (onKind steps) (onKind steps') := by
  intro s
  unfold onKind
  rw [g.current_state]
  exact h _ s

private theorem relocates_bind {next next' : α → Step β} (h : Relocates g ρ i a b)
    (hnext : ∀ value, Relocates g σ i (next (ρ value)) (next' value)) :
    Relocates g σ i (bind a next) (bind b next') := by
  intro s
  unfold bind
  rw [h s]
  obtain fault | ⟨value | failure | failure, reached⟩ := b i s
  · rfl
  · exact hnext value reached
  · rfl
  · rfl

private theorem relocates_mapOutcome {f f' : Outcome α → Outcome β}
    (hf : ∀ outcome, f (g.outcome ρ outcome) = g.outcome σ (f' outcome))
    (h : Relocates g ρ i a b) : Relocates g σ i (mapOutcome f a) (mapOutcome f' b) := by
  intro s
  unfold mapOutcome
  rw [h s]
  obtain fault | ⟨outcome, reached⟩ := b i s
  · rfl
  · exact congrArg (fun outcome ↦ Except.ok (outcome, g.state reached)) (hf outcome)

private theorem relocates_atomic (h : Relocates g ρ i a b) :
    Relocates g ρ i (atomic a) (atomic b) := by
  intro s
  unfold atomic
  rw [h s]
  obtain fault | ⟨value | failure | failure, reached⟩ := b i s <;> rfl

private theorem relocates_seq (h : Relocates g ρ i a b) (h' : Relocates g σ i c d) :
    Relocates g (Prod.map ρ σ) i (seq a c) (seq b d) :=
  relocates_atomic (relocates_bind h fun _ ↦ relocates_bind h' fun _ ↦
    relocates_succeed rfl)

private theorem relocates_check {verdict : α → Outcome β}
    (hverdict : ∀ value, verdict (ρ value) = g.outcome σ (verdict value))
    (h : Relocates g ρ i a b) : Relocates g σ i (check a verdict) (check b verdict) :=
  relocates_atomic (relocates_bind h fun value s ↦
    congrArg (fun outcome ↦ Except.ok (outcome, g.state s)) (hverdict value))

private theorem relocates_optional (h : Relocates g ρ i a b) :
    Relocates g (Option.map ρ) i (optional a) (optional b) := by
  intro s
  unfold optional
  rw [h s]
  obtain fault | ⟨value | failure | failure, reached⟩ := b i s <;> rfl

private theorem relocates_orElse {a' b' : Step α} (h : Relocates g ρ i a b)
    (h' : Relocates g ρ i a' b') : Relocates g ρ i (orElse a a') (orElse b b') := by
  intro s
  unfold orElse
  rw [h s]
  obtain fault | ⟨value | failure | failure, reached⟩ := b i s
  · rfl
  · rfl
  · exact h' (reached.moveTo s.position)
  · rfl

private theorem map_cons (item : α) (outcome : Outcome (List α)) :
    (g.outcome (List.map ρ) outcome).map (ρ item :: ·) =
      g.outcome (List.map ρ) (outcome.map (item :: ·)) := by
  cases outcome <;> rfl

private theorem relocates_repeated (h : Relocates g ρ i a b) (allowed : Nat) :
    Relocates g (List.map ρ) i (repeated a allowed) (repeated b allowed) := by
  induction allowed with
  | zero => exact fun _ ↦ rfl
  | succ allowed ih =>
    intro s
    unfold repeated
    rw [h s]
    obtain fault | ⟨item | failure | failure, reached⟩ := b i s
    · rfl
    · change (if reached.position = s.position then _ else _) = _
      dsimp only
      split
      · rfl
      · exact relocates_mapOutcome (map_cons item) ih reached
    · rfl
    · rfl

private theorem relocates_many (h : Relocates g ρ i a b) :
    Relocates g (List.map ρ) i (many a) (many b) := by
  intro s
  unfold many
  rw [g.attempts_input]
  exact relocates_repeated h _ s

private theorem relocates_many1 (h : Relocates g ρ i a b) :
    Relocates g (List.map ρ) i (many1 a) (many1 b) := by
  refine relocates_atomic (relocates_bind (relocates_many h) fun items ↦ ?_)
  rw [List.isEmpty_map]
  split
  · exact relocates_fail fun _ ↦ by rfl
  · exact relocates_succeed rfl

private theorem relocates_nonEmpty (what : String) {a b : Step (List α)}
    (h : Relocates g (List.map ρ) i a b) :
    Relocates g (List.map ρ) i (nonEmpty what a) (nonEmpty what b) := by
  refine relocates_bind h fun items s ↦ ?_
  rw [List.isEmpty_map, g.lineEnds_input, g.tokenAt_input]
  split
  · exact relocates_failAt _ (fun _ ↦ by rfl) s
  · exact relocates_succeed rfl s

private theorem relocates_line (h : Relocates g ρ i a b) : Relocates g ρ i (line a) (line b) :=
  relocates_mapOutcome (fun outcome ↦ by cases outcome <;> rfl)
    (relocates_seq h (relocates_many (relocates_token .endOfLine)))

private theorem relocates_aligned {locate : α → Location}
    (hlocate : ∀ item, locate (ρ item) = g.location (locate item)) (column : Nat)
    (h : Relocates g ρ i a b) (allowed : Nat) :
    Relocates g (List.map ρ) i (aligned (g.column column) locate a allowed)
      (aligned column locate b allowed) := by
  induction allowed with
  | zero => exact fun _ ↦ rfl
  | succ allowed ih =>
    intro s
    unfold aligned
    rw [g.current_state]
    have hiff : (g.token (s.current i)).location.column? ≠ some (g.column column) ↔
        (s.current i).location.column? ≠ some column := not_congr (g.column?_eq_some_iff _ _)
    by_cases hcolumn : (s.current i).location.column? ≠ some column
    · rw [if_pos hcolumn, if_pos (hiff.2 hcolumn)]
      rfl
    · rw [if_neg hcolumn, if_neg (hcolumn ∘ hiff.1), h s]
      obtain fault | ⟨item | failure | failure, reached⟩ := b i s
      · rfl
      · change (if (locate (ρ item)).isGenerated = true then _ else _) = _
        rw [hlocate, g.isGenerated_location]
        dsimp only
        split
        · rfl
        · exact relocates_mapOutcome (map_cons item) ih reached
      · rfl
      · rfl

private theorem relocates_block {locate : α → Location}
    (hlocate : ∀ item, locate (ρ item) = g.location (locate item)) (h : Relocates g ρ i a b) :
    Relocates g (List.map ρ) i (block locate a) (block locate b) := by
  intro s
  have hposition : (g.state s).position = s.position := rfl
  unfold block
  dsimp only
  rw [g.lineEnds_input, g.indent_state, g.attempts_input, g.tokenAt_input, hposition]
  generalize s.position + i.lineEnds s.position = opening
  by_cases hkind : (i.tokenAt opening).kind = .endOfInput
  · rw [if_pos hkind, if_pos (show (g.token (i.tokenAt opening)).kind = _ from hkind)]
    exact relocates_failAt _ (fun _ ↦ by rfl) s
  rw [if_neg hkind, if_neg (show (g.token (i.tokenAt opening)).kind ≠ _ from hkind),
    show (g.token (i.tokenAt opening)).location.column? = _ from g.column?_location _]
  cases (i.tokenAt opening).location.column? with
  | none => rfl
  | some column =>
    simp only [Option.map_some, g.strictMono.le_iff_le]
    split
    · exact relocates_failAt _ (fun _ ↦ by rfl) s
    · have hlines : aligned (g.column column) locate (line a) (i.attempts opening) (g.input i)
          (((g.state s).moveTo opening).openBlock (g.column column)) = g.answer (List.map ρ)
            (aligned column locate (line b) (i.attempts opening) i
              ((s.moveTo opening).openBlock column)) :=
        relocates_aligned hlocate column (relocates_line h) (i.attempts opening)
          ((s.moveTo opening).openBlock column)
      rw [hlines]
      -- A block that is closed leaves the blocks outside of it, moved.
      obtain fault | ⟨⟨_ | ⟨item, items⟩⟩ | failure | failure, position, blocks, table⟩ :=
        aligned column locate (line b) (i.attempts opening) i ((s.moveTo opening).openBlock column)
      · rfl
      all_goals
        change Except.ok (_, (⟨_, (List.map g.column blocks).tail, _⟩ : State)) = .ok (_, ⟨_, _, _⟩)
        rw [← List.map_tail]
        rfl

end Step

namespace Parser

/-- The functions inside the parser commute with moving locations, which its values do by the given
function. -/
inductive Natural (g : Reindentation) : {α : Type} → (α → α) → Parser α → Prop where
  | succeed {α : Type} {ρ : α → α} {value : α} (h : ρ value = value) : Natural g ρ (.succeed value)
  | fail {α : Type} {ρ : α → α} {problem : Terminal → Problem}
      (h : ∀ terminal, problem terminal = g.problem (problem terminal)) :
      Natural g ρ (.fail problem)
  | here : Natural g g.location .here
  | token {kind : TokenKind} : Natural g g.token (.token kind)
  | value {α : Type} {kind : TokenKind} {read : Payload → Option α} :
      Natural g (Prod.map id g.location) (.value kind read)
  | endOfStatement : Natural g id .endOfStatement
  | rule (rule : Rule) : Natural g (g.result rule.family) (.rule rule)
  | sameLine {α : Type} {ρ : α → α} {inner : Parser α} (h : Natural g ρ inner) :
      Natural g ρ (.sameLine inner)
  | inBlockColumn {α : Type} {ρ : α → α} {inner : Parser α} (h : Natural g ρ inner) :
      Natural g ρ (.inBlockColumn inner)
  | onKind {α : Type} {ρ : α → α} {choices : TokenKind → Parser α}
      (h : ∀ kind, Natural g ρ (choices kind)) : Natural g ρ (.onKind choices)
  | seq {α β : Type} {ρ : α → α} {σ : β → β} {first : Parser α} {second : Parser β}
      (h : Natural g ρ first) (h' : Natural g σ second) :
      Natural g (Prod.map ρ σ) (.seq first second)
  | map {α β : Type} {ρ : α → α} {σ : β → β} {f : α → β} {inner : Parser α}
      (h : Natural g ρ inner) (hf : ∀ value, f (ρ value) = σ (f value)) :
      Natural g σ (.map f inner)
  | check {α β : Type} {ρ : α → α} {σ : β → β} {verdict : α → Outcome β} {inner : Parser α}
      (h : Natural g ρ inner)
      (hverdict : ∀ value, verdict (ρ value) = g.outcome σ (verdict value)) :
      Natural g σ (.check verdict inner)
  | commit {α : Type} {ρ : α → α} {inner : Parser α} (h : Natural g ρ inner) :
      Natural g ρ (.commit inner)
  | commitAs {α : Type} {ρ : α → α} {problem : Problem} {inner : Parser α} (h : Natural g ρ inner)
      (hproblem : g.problem problem = problem) : Natural g ρ (.commitAs problem inner)
  | optional {α : Type} {ρ : α → α} {inner : Parser α} (h : Natural g ρ inner) :
      Natural g (Option.map ρ) (.optional inner)
  | many {α : Type} {ρ : α → α} {inner : Parser α} (h : Natural g ρ inner) :
      Natural g (List.map ρ) (.many inner)
  | many1 {α : Type} {ρ : α → α} {inner : Parser α} (h : Natural g ρ inner) :
      Natural g (List.map ρ) (.many1 inner)
  | orElse {α : Type} {ρ : α → α} {first second : Parser α} (h : Natural g ρ first)
      (h' : Natural g ρ second) : Natural g ρ (.orElse first second)
  | block {α : Type} {ρ : α → α} {locate : α → Location} {item : Parser α} (h : Natural g ρ item)
      (hlocate : ∀ value, locate (ρ value) = g.location (locate value)) :
      Natural g (List.map ρ) (.block locate item)
  | nonEmpty {α : Type} {ρ : α → α} {what : String} {inner : Parser (List α)}
      (h : Natural g (List.map ρ) inner) : Natural g (List.map ρ) (.nonEmpty what inner)

/-- A natural parser answers on moved tokens what it answers, moved, if the rules do. -/
theorem Natural.run_relocates {parser : Parser α} (h : parser.Natural g ρ)
    {call : (rule : Rule) → Step rule.Result}
    (hcall : ∀ rule, Step.Relocates g (g.result rule.family) i (call rule) (call rule)) :
    Step.Relocates g ρ i (parser.run call) (parser.run call) := by
  induction h with
  | succeed h => exact Step.relocates_succeed h.symm
  | fail h => exact Step.relocates_fail h
  | here => exact Step.relocates_here
  | token => exact Step.relocates_token _
  | value => exact Step.relocates_value _ _
  | endOfStatement => exact Step.relocates_endOfStatement
  | rule rule => exact hcall rule
  | sameLine _ ih => exact Step.relocates_sameLine ih
  | inBlockColumn _ ih => exact Step.relocates_inBlockColumn ih
  | onKind _ ih => exact Step.relocates_onKind ih
  | seq _ _ ih ih' => exact Step.relocates_seq ih ih'
  | map _ hf ih =>
    refine Step.relocates_mapOutcome (fun outcome ↦ ?_) ih
    cases outcome with
    | ok value => exact congrArg Outcome.ok (hf value)
    | recoverable | fatal => rfl
  | check _ hverdict ih => exact Step.relocates_check hverdict ih
  | commit _ ih =>
    refine Step.relocates_mapOutcome (fun outcome ↦ ?_) ih
    cases outcome <;> rfl
  | commitAs _ hproblem ih =>
    refine Step.relocates_mapOutcome (fun outcome ↦ ?_) ih
    cases outcome with
    | recoverable failure =>
      exact congrArg (fun problem ↦ Outcome.fatal ⟨g.location failure.location, problem⟩)
        hproblem.symm
    | ok | fatal => rfl
  | optional _ ih => exact Step.relocates_optional ih
  | many _ ih => exact Step.relocates_many ih
  | many1 _ ih => exact Step.relocates_many1 ih
  | orElse _ _ ih ih' => exact Step.relocates_orElse ih ih'
  | block _ hlocate ih => exact Step.relocates_block hlocate ih
  | nonEmpty _ ih => exact Step.relocates_nonEmpty _ ih

end Parser

end Packrat

end Offside
