import Offside.Packrat.Parser

/-!
# What runs keep

A frame is a relation between the states before and after a step that holds when a token is passed
or the position is put back, and that a block keeps if its inside does (`Frame`). What every rule
keeps, every parser keeps (`Parser.run_keeps`), whichever way it ends: the columns of the open
blocks are one instance (`frame_blocks`), an invariant of the table another (`frame_table`).
-/

namespace Offside.Packrat

variable {α β : Type} {input : Input} {R : State → State → Prop}

/-- A relation of states that holds along the parts of a run if it holds of each part. -/
structure Frame (input : Input) (R : State → State → Prop) : Prop where
  refl : ∀ s : State, R s s
  trans : ∀ {s m s' : State}, R s m → R m s' → R s s'
  advanced : ∀ s : State, R s (s.advance input)
  back : ∀ {s m : State}, R s m → R s (m.moveTo s.position)
  /-- A block is opened behind line ends, in the column of the token there. -/
  inside : ∀ {s m : State} {column : Nat},
    (input.tokenAt (s.position + input.lineEnds s.position)).location.column? = some column →
      R ((s.moveTo (s.position + input.lineEnds s.position)).openBlock column) m → R s m.closeBlock

/-- A relation that does not look at positions is a frame if a block keeps it. -/
theorem frame_of_moved (moved : ∀ (s : State) (position : Nat), R s (s.moveTo position))
    (trans : ∀ {s m s' : State}, R s m → R m s' → R s s')
    (inside : ∀ {s m : State} {column : Nat}, R (s.openBlock column) m → R s m.closeBlock) :
    Frame input R where
  refl s := moved s s.position
  trans := trans
  advanced s := by
    unfold State.advance
    split
    · exact moved _ _
    · exact moved s s.position
  back h := trans h (moved _ _)
  inside _ h := trans (moved _ _) (inside h)

/-- The open blocks stay as they are. -/
theorem frame_blocks : Frame input fun s s' ↦ s'.blocks = s.blocks :=
  frame_of_moved (fun _ _ ↦ rfl) (fun h h' ↦ h'.trans h) fun h ↦ congrArg List.tail h

/-- The table keeps what it has. -/
theorem frame_table (Keeps : Table → Prop) :
    Frame input fun s s' ↦ Keeps s.table → Keeps s'.table :=
  frame_of_moved (fun _ _ ↦ id) (fun h h' ↦ h' ∘ h) id

namespace Step

/-- The relation holds between the state before a run of the step and the state after it. -/
def Keeps (R : State → State → Prop) (input : Input) (step : Step α) : Prop :=
  ∀ ⦃s s' : State⦄ ⦃outcome : Outcome α⦄, step input s = .ok (outcome, s') → R s s'

variable {a : Step α} {b : Step β}

/-- A failing step keeps the frame. -/
theorem keeps_fail (hR : Frame input R) (problem : Terminal → Problem) :
    (fail (α := α) problem).Keeps R input := by
  intro s s' outcome h
  cases h
  exact hR.refl s

/-- A token keeps the frame. -/
theorem keeps_token (hR : Frame input R) (kind : TokenKind) : (token kind).Keeps R input := by
  intro s s' outcome h
  unfold token at h
  dsimp only at h
  split at h
  · cases h
    exact hR.advanced s
  · exact keeps_fail hR _ h

/-- A value keeps the frame. -/
theorem keeps_value (hR : Frame input R) (kind : TokenKind) (read : Payload → Option α) :
    (value kind read).Keeps R input := by
  intro s s' outcome h
  unfold value at h
  split at h
  · cases h
  · next htoken =>
    split at h <;> cases h
    exact keeps_token hR kind htoken
  · next htoken =>
    cases h
    exact keeps_token hR kind htoken
  · next htoken =>
    cases h
    exact keeps_token hR kind htoken

/-- The end of a statement keeps the frame. -/
theorem keeps_endOfStatement (hR : Frame input R) : endOfStatement.Keeps R input := by
  intro s s' outcome h
  unfold endOfStatement at h
  split at h
  · cases h
    exact hR.advanced s
  · split at h
    · cases h
      exact hR.refl s
    · exact keeps_fail hR _ h

private theorem keeps_bind (hR : Frame input R) {next : α → Step β} (h : a.Keeps R input)
    (hnext : ∀ found, (next found).Keeps R input) : (bind a next).Keeps R input := by
  intro s s' outcome hs
  unfold bind at hs
  split at hs
  · cases hs
  · next found m ha => exact hR.trans (h ha) (hnext found hs)
  · next ha =>
    cases hs
    exact h ha
  · next ha =>
    cases hs
    exact h ha

private theorem keeps_mapOutcome (f : Outcome α → Outcome β) (h : a.Keeps R input) :
    (mapOutcome f a).Keeps R input := by
  intro s s' outcome hs
  unfold mapOutcome at hs
  split at hs
  · cases hs
  · next ha =>
    cases hs
    exact h ha

private theorem keeps_atomic (hR : Frame input R) (h : a.Keeps R input) :
    (atomic a).Keeps R input := by
  intro s s' outcome hs
  unfold atomic at hs
  split at hs
  · cases hs
  · next ha =>
    cases hs
    exact h ha
  · next ha =>
    cases hs
    exact hR.back (h ha)

private theorem keeps_seq (hR : Frame input R) (h : a.Keeps R input) (h' : b.Keeps R input) :
    (seq a b).Keeps R input := by
  refine keeps_atomic hR (keeps_bind hR h fun _ ↦ keeps_bind hR h' fun _ ↦ ?_)
  intro s s' outcome hs
  cases hs
  exact hR.refl s

private theorem keeps_check (hR : Frame input R) (verdict : α → Outcome β) (h : a.Keeps R input) :
    (check a verdict).Keeps R input := by
  refine keeps_atomic hR (keeps_bind hR h fun _ ↦ ?_)
  intro s s' outcome hs
  cases hs
  exact hR.refl s

private theorem keeps_sameLine (hR : Frame input R) (h : a.Keeps R input) :
    (sameLine a).Keeps R input := by
  intro s s' outcome hs
  unfold sameLine at hs
  split at hs
  · exact keeps_fail hR _ hs
  · exact h hs

private theorem keeps_inBlockColumn (hR : Frame input R) (h : a.Keeps R input) :
    (inBlockColumn a).Keeps R input := by
  intro s s' outcome hs
  unfold inBlockColumn at hs
  split at hs
  · exact h hs
  · exact keeps_fail hR _ hs

private theorem keeps_optional (hR : Frame input R) (h : a.Keeps R input) :
    (optional a).Keeps R input := by
  intro s s' outcome hs
  unfold optional at hs
  split at hs
  · cases hs
  · next ha =>
    cases hs
    exact h ha
  · next ha =>
    cases hs
    exact hR.back (h ha)
  · next ha =>
    cases hs
    exact h ha

private theorem keeps_orElse (hR : Frame input R) {b : Step α} (h : a.Keeps R input)
    (h' : b.Keeps R input) :
    (orElse a b).Keeps R input := by
  intro s s' outcome hs
  unfold orElse at hs
  split at hs
  · next ha => exact hR.trans (hR.back (h ha)) (h' hs)
  · exact h hs

private theorem keeps_repeated (hR : Frame input R) (h : a.Keeps R input) (allowed : Nat) :
    (repeated a allowed).Keeps R input := by
  induction allowed with
  | zero => exact fun _ _ _ hs ↦ nomatch hs
  | succ allowed ih =>
    intro s s' outcome hs
    unfold repeated at hs
    split at hs
    · cases hs
    · next ha =>
      cases hs
      exact hR.back (h ha)
    · next ha =>
      cases hs
      exact h ha
    · next ha =>
      split at hs
      · cases hs
        exact h ha
      · exact hR.trans (h ha) (keeps_mapOutcome _ ih hs)

private theorem keeps_many (hR : Frame input R) (h : a.Keeps R input) : (many a).Keeps R input :=
  fun _ _ _ hs ↦ keeps_repeated hR h _ hs

private theorem keeps_many1 (hR : Frame input R) (h : a.Keeps R input) :
    (many1 a).Keeps R input := by
  refine keeps_atomic hR (keeps_bind hR (keeps_many hR h) fun items ↦ ?_)
  intro s s' outcome hs
  split at hs
  · exact keeps_fail hR _ hs
  · cases hs
    exact hR.refl s

private theorem keeps_nonEmpty (hR : Frame input R) (what : String) {step : Step (List α)}
    (h : step.Keeps R input) : (nonEmpty what step).Keeps R input := by
  refine keeps_bind hR h fun items ↦ ?_
  intro s s' outcome hs
  split at hs <;> cases hs <;> exact hR.refl s

private theorem keeps_line (hR : Frame input R) (h : a.Keeps R input) : (line a).Keeps R input :=
  keeps_mapOutcome _ (keeps_seq hR h (keeps_many hR (keeps_token hR _)))

private theorem keeps_aligned (hR : Frame input R) (column : Nat) (locate : α → Location)
    (h : a.Keeps R input) (allowed : Nat) :
    (aligned column locate a allowed).Keeps R input := by
  induction allowed with
  | zero => exact fun _ _ _ hs ↦ nomatch hs
  | succ allowed ih =>
    intro s s' outcome hs
    unfold aligned at hs
    split at hs
    · cases hs
      exact hR.refl s
    · split at hs
      · cases hs
      · next ha =>
        cases hs
        exact hR.back (h ha)
      · next ha =>
        cases hs
        exact h ha
      · next ha =>
        split at hs
        · cases hs
          exact hR.back (h ha)
        · exact hR.trans (h ha) (keeps_mapOutcome _ ih hs)

private theorem keeps_block (hR : Frame input R) (locate : α → Location) (h : a.Keeps R input) :
    (block locate a).Keeps R input := by
  intro s s' outcome hs
  unfold block at hs
  dsimp only at hs
  split at hs
  · cases hs
    exact hR.refl s
  · split at hs
    · cases hs
      exact hR.refl s
    · next column hcolumn =>
      have hlines := keeps_aligned hR column locate (keeps_line hR h)
      split at hs
      · cases hs
        exact hR.refl s
      · split at hs
        · cases hs
        · next ha =>
          cases hs
          exact hR.back (hR.inside hcolumn (hlines _ ha))
        · next ha =>
          cases hs
          exact hR.inside hcolumn (hlines _ ha)

end Step

/-- What every rule keeps, every parser keeps. -/
theorem Parser.run_keeps (hR : Frame input R) {call : (rule : Rule) → Step rule.Result}
    (hcall : ∀ rule, (call rule).Keeps R input) (parser : Parser α) :
    (parser.run call).Keeps R input := by
  induction parser with
  | succeed | here =>
    intro s s' outcome hs
    cases hs
    exact hR.refl s
  | fail problem => exact Step.keeps_fail hR problem
  | token kind => exact Step.keeps_token hR kind
  | value kind read => exact Step.keeps_value hR kind read
  | endOfStatement => exact Step.keeps_endOfStatement hR
  | rule rule => exact hcall rule
  | sameLine _ ih => exact Step.keeps_sameLine hR ih
  | inBlockColumn _ ih => exact Step.keeps_inBlockColumn hR ih
  | onKind _ ih =>
    intro s s' outcome hs
    exact ih _ hs
  | seq _ _ ih ih' => exact Step.keeps_seq hR ih ih'
  | map f _ ih => exact Step.keeps_mapOutcome (.map f) ih
  | check verdict _ ih => exact Step.keeps_check hR verdict ih
  | commit _ ih => exact Step.keeps_mapOutcome .commit ih
  | commitAs problem _ ih => exact Step.keeps_mapOutcome (.commitAs problem) ih
  | optional _ ih => exact Step.keeps_optional hR ih
  | many _ ih => exact Step.keeps_many hR ih
  | many1 _ ih => exact Step.keeps_many1 hR ih
  | orElse _ _ ih ih' => exact Step.keeps_orElse hR ih ih'
  | block locate _ ih => exact Step.keeps_block hR locate ih
  | nonEmpty what _ ih => exact Step.keeps_nonEmpty hR what ih

end Offside.Packrat
