import Offside.Proofs.Packrat.Trace

/-!
# Laws of watched runs

A law speaks of a watched run and the state in which it began. It holds of what has no part and
leaves the open blocks and the table as they are, and it is kept where a run goes on, becomes a part
of another or ends with its block (`Watched.Law`). What every rule obeys, every parser obeys
(`Parser.watch_obeys`).
-/

namespace Offside.Packrat

variable {α β : Type} {input : Input}

namespace Watched

/-- What goes on from a fatal failure has no part and fails in the same way. -/
def Passes (next : Outcome α → State → Watched β) : Prop :=
  ∀ failure m, ∃ m', next (.fatal failure) m = silent (.ok (.fatal failure, m'))

/-- A law of watched runs that holds along the parts of a run if it holds of each part. -/
structure Law (P : ∀ {α : Type}, State → Watched α → Prop) : Prop where
  stay : ∀ {α : Type} {s m : State} {outcome : Outcome α},
    m.blocks = s.blocks → m.table = s.table → P s (silent (.ok (outcome, m)))
  fault : ∀ {α : Type} {s : State} (fault : Fault), P s (silent (α := α) (.error fault))
  /-- Where the run began in the text is of no matter. -/
  moved : ∀ {α : Type} {s : State} {position : Nat} {run : Watched α},
    P (s.moveTo position) run → P s run
  resume : ∀ {α β : Type} {s : State} {run : Watched α} {next : Outcome α → State → Watched β},
    P s run → Passes next → (∀ outcome m, P m (next outcome m)) → P s (run.resume next)
  part : ∀ {α : Type} {s : State} {run : Watched α}, P s run → P s (run.asPart s)
  /-- Closing the block is all that follows a run inside a block that stands deep enough. -/
  close : ∀ {α β : Type} {s : State} {column : Nat} {run : Watched α}
    {next : Outcome α → State → Watched β},
    s.indent < column → P (s.openBlock column) run → Passes next →
      (∀ outcome m, ∃ outcome' m', next outcome m = silent (.ok (outcome', m')) ∧
        m'.blocks = m.blocks.tail ∧ m'.table = m.table) → P s (run.resume next)

end Watched

open Watched

namespace Watch

/-- Whatever state it begins in, what the watch sees obeys the law. -/
def Obeys (P : ∀ {α : Type}, State → Watched α → Prop) (input : Input) (watch : Watch α) : Prop :=
  ∀ s, P s (watch input s)

variable {P : ∀ {α : Type}, State → Watched α → Prop} {a : Watch α} {b : Watch β}

private theorem frame_still :
    Frame input fun s s' ↦ s'.blocks = s.blocks ∧ s'.table = s.table :=
  frame_of_moved (fun _ _ ↦ ⟨rfl, rfl⟩) (fun h h' ↦ ⟨h'.1.trans h.1, h'.2.trans h.2⟩)
    fun h ↦ ⟨congrArg List.tail h.1, h.2⟩

private theorem obeys_plain (hP : Law P) {step : Step α}
    (h : step.Keeps (fun s s' ↦ s'.blocks = s.blocks ∧ s'.table = s.table) input) :
    (plain step).Obeys P input := by
  intro s
  change P s (silent (step input s))
  cases hstep : step input s with
  | error fault => exact hP.fault fault
  | ok result =>
    obtain ⟨hblocks, htable⟩ := h hstep
    exact hP.stay hblocks htable

private theorem obeys_part (hP : Law P) (h : a.Obeys P input) : (part a).Obeys P input :=
  fun s ↦ hP.part (h s)

private theorem obeys_bind (hP : Law P) {next : α → Watch β} (h : a.Obeys P input)
    (hnext : ∀ found, (next found).Obeys P input) : (bind a next).Obeys P input := by
  refine fun s ↦ hP.resume (h s) (fun failure m ↦ ⟨m, rfl⟩) fun outcome m ↦ ?_
  cases outcome with
  | ok found => exact hnext found m
  | recoverable | fatal => exact hP.stay rfl rfl

private theorem obeys_mapOutcome (hP : Law P) {f : Outcome α → Outcome β}
    (hf : ∀ failure, f (.fatal failure) = .fatal failure) (h : a.Obeys P input) :
    (mapOutcome f a).Obeys P input :=
  fun s ↦ hP.resume (h s) (fun failure m ↦ ⟨m, by rw [hf]⟩) fun _ _ ↦ hP.stay rfl rfl

private theorem obeys_atomic (hP : Law P) (h : a.Obeys P input) : (atomic a).Obeys P input := by
  refine fun s ↦ hP.resume (h s) (fun failure m ↦ ⟨m.moveTo s.position, rfl⟩) fun outcome m ↦ ?_
  cases outcome <;> exact hP.stay rfl rfl

private theorem obeys_sameLine (hP : Law P) (h : a.Obeys P input) :
    (sameLine a).Obeys P input := by
  intro s
  unfold sameLine
  split
  · exact hP.stay rfl rfl
  · exact h s

private theorem obeys_inBlockColumn (hP : Law P) (h : a.Obeys P input) :
    (inBlockColumn a).Obeys P input := by
  intro s
  unfold inBlockColumn
  split
  · exact h s
  · exact hP.stay rfl rfl

private theorem obeys_seq (hP : Law P) (h : a.Obeys P input) (h' : b.Obeys P input) :
    (seq a b).Obeys P input :=
  obeys_atomic hP (obeys_bind hP h fun _ ↦ obeys_bind hP h' fun _ _ ↦ hP.stay rfl rfl)

private theorem obeys_check (hP : Law P) (verdict : α → Outcome β) (h : a.Obeys P input) :
    (check a verdict).Obeys P input :=
  obeys_atomic hP (obeys_bind hP h fun _ _ ↦ hP.stay rfl rfl)

private theorem obeys_optional (hP : Law P) (h : a.Obeys P input) :
    (optional a).Obeys P input := by
  refine fun s ↦ hP.resume (h s) (fun failure m ↦ ⟨m, rfl⟩) fun outcome m ↦ ?_
  cases outcome <;> exact hP.stay rfl rfl

private theorem obeys_orElse (hP : Law P) {b : Watch α} (h : a.Obeys P input)
    (h' : b.Obeys P input) : (orElse a b).Obeys P input := by
  refine fun s ↦ hP.resume (h s) (fun failure m ↦ ⟨m, rfl⟩) fun outcome m ↦ ?_
  cases outcome with
  | recoverable => exact hP.moved (h' (m.moveTo s.position))
  | ok | fatal => exact hP.stay rfl rfl

private theorem obeys_repeated (hP : Law P) (h : a.Obeys P input) (allowed : Nat) :
    (repeated a allowed).Obeys P input := by
  induction allowed with
  | zero => exact fun s ↦ hP.fault _
  | succ allowed ih =>
    refine fun s ↦ hP.resume (h s) (fun failure m ↦ ⟨m, rfl⟩) fun outcome m ↦ ?_
    cases outcome with
    | recoverable | fatal => exact hP.stay rfl rfl
    | ok item =>
      dsimp only
      split
      · exact hP.stay rfl rfl
      · exact obeys_mapOutcome hP (fun _ ↦ rfl) ih m

private theorem obeys_many (hP : Law P) (h : a.Obeys P input) : (many a).Obeys P input :=
  fun s ↦ obeys_repeated hP h _ s

private theorem obeys_many1 (hP : Law P) (h : a.Obeys P input) : (many1 a).Obeys P input := by
  refine obeys_atomic hP (obeys_bind hP (obeys_part hP (obeys_many hP h)) fun items ↦ ?_)
  split <;> exact fun s ↦ hP.stay rfl rfl

private theorem obeys_nonEmpty (hP : Law P) (what : String) {a : Watch (List α)}
    (h : a.Obeys P input) : (nonEmpty what a).Obeys P input := by
  refine obeys_bind hP h fun items s ↦ ?_
  split <;> exact hP.stay rfl rfl

private theorem obeys_line (hP : Law P) (h : a.Obeys P input) : (line a).Obeys P input := by
  have hends : (part (plain (.token .endOfLine))).Obeys P input :=
    obeys_part hP (obeys_plain hP (Step.keeps_token frame_still _))
  exact obeys_part hP (obeys_mapOutcome hP (fun _ ↦ rfl)
    (obeys_part hP (obeys_seq hP h (obeys_part hP (obeys_many hP hends)))))

private theorem obeys_aligned (hP : Law P) (column : Nat) (locate : α → Location)
    (h : a.Obeys P input) (allowed : Nat) : (aligned column locate a allowed).Obeys P input := by
  induction allowed with
  | zero => exact fun s ↦ hP.fault _
  | succ allowed ih =>
    intro s
    unfold aligned
    split
    · exact hP.stay rfl rfl
    · refine hP.resume (h s) (fun failure m ↦ ⟨m, rfl⟩) fun outcome m ↦ ?_
      cases outcome with
      | recoverable | fatal => exact hP.stay rfl rfl
      | ok item =>
        dsimp only
        split
        · exact hP.stay rfl rfl
        · exact obeys_mapOutcome hP (fun _ ↦ rfl) ih m

private theorem obeys_block (hP : Law P) (locate : α → Location) (h : a.Obeys P input) :
    (block locate a).Obeys P input := by
  intro s
  unfold block
  dsimp only
  split
  · exact hP.stay rfl rfl
  · split
    · exact hP.stay rfl rfl
    · next column _ =>
      split
      · exact hP.stay rfl rfl
      · next hcolumn =>
        have hlines := obeys_aligned hP column locate (obeys_line hP h)
          (input.attempts (s.position + input.lineEnds s.position))
          ((s.openBlock column).moveTo (s.position + input.lineEnds s.position))
        refine hP.close (Nat.lt_of_not_le hcolumn) (hP.moved hlines)
          (fun failure m ↦ ⟨m.closeBlock, rfl⟩) fun outcome m ↦ ?_
        rcases outcome with (_ | ⟨item, items⟩) | failure | failure <;> exact ⟨_, _, rfl, rfl, rfl⟩

end Watch

/-- A parser obeys a law if the rules do. -/
theorem Parser.watch_obeys {P : ∀ {α : Type}, State → Watched α → Prop} (hP : Law P)
    {call : (rule : Rule) → Watch rule.Result} (h : ∀ rule, (call rule).Obeys P input)
    (parser : Parser α) : (parser.watch call).Obeys P input := by
  induction parser with
  | succeed | here => exact Watch.obeys_part hP fun s ↦ hP.stay rfl rfl
  | fail problem =>
    exact Watch.obeys_part hP (Watch.obeys_plain hP (Step.keeps_fail Watch.frame_still _))
  | token kind =>
    exact Watch.obeys_part hP (Watch.obeys_plain hP (Step.keeps_token Watch.frame_still _))
  | value kind read =>
    exact Watch.obeys_part hP (Watch.obeys_plain hP (Step.keeps_value Watch.frame_still _ _))
  | endOfStatement =>
    exact Watch.obeys_part hP (Watch.obeys_plain hP (Step.keeps_endOfStatement Watch.frame_still))
  | rule rule => exact Watch.obeys_part hP (h rule)
  | sameLine _ ih => exact Watch.obeys_part hP (Watch.obeys_sameLine hP ih)
  | inBlockColumn _ ih => exact Watch.obeys_part hP (Watch.obeys_inBlockColumn hP ih)
  | onKind _ ih => exact Watch.obeys_part hP fun s ↦ ih _ s
  | seq _ _ ih ih' => exact Watch.obeys_part hP (Watch.obeys_seq hP ih ih')
  | map f _ ih => exact Watch.obeys_part hP (Watch.obeys_mapOutcome hP (fun _ ↦ rfl) ih)
  | check verdict _ ih => exact Watch.obeys_part hP (Watch.obeys_check hP verdict ih)
  | commit _ ih => exact Watch.obeys_part hP (Watch.obeys_mapOutcome hP (fun _ ↦ rfl) ih)
  | commitAs problem _ ih =>
    exact Watch.obeys_part hP (Watch.obeys_mapOutcome hP (fun _ ↦ rfl) ih)
  | optional _ ih => exact Watch.obeys_part hP (Watch.obeys_optional hP ih)
  | many _ ih => exact Watch.obeys_part hP (Watch.obeys_many hP ih)
  | many1 _ ih => exact Watch.obeys_part hP (Watch.obeys_many1 hP ih)
  | orElse _ _ ih ih' => exact Watch.obeys_part hP (Watch.obeys_orElse hP ih ih')
  | block locate _ ih => exact Watch.obeys_part hP (Watch.obeys_block hP locate ih)
  | nonEmpty what _ ih => exact Watch.obeys_part hP (Watch.obeys_nonEmpty hP what ih)

end Offside.Packrat
