import Offside.Packrat.Parser

/-!
# Steps that answer no less

A step approximates another if it answers as the other does unless it runs out of its bound. All
ways to combine parsers keep this (`Parser.run_approximates`): rules that are cut off in more cases
make parsers that are cut off in more cases, and that answer the same otherwise.
-/

namespace Offside.Packrat

variable {α β : Type} {input : Input}

namespace Step

/-- The first step runs out of its bound or answers as the second does. -/
def Approximates (input : Input) (a b : Step α) : Prop :=
  ∀ s, a input s = .error .exhausted ∨ a input s = b input s

variable {a b : Step α} {c d : Step β}

private theorem Approximates.refl (input : Input) (a : Step α) : a.Approximates input a :=
  fun _ ↦ .inr rfl

/-- A step that stays within its bound answers as what it approximates. -/
theorem Approximates.eq (h : a.Approximates input b) {s : State}
    (hs : a input s ≠ .error .exhausted) : a input s = b input s :=
  (h s).resolve_left hs

private theorem approximates_bind {next next' : α → Step β} (h : a.Approximates input b)
    (hnext : ∀ value, (next value).Approximates input (next' value)) :
    (bind a next).Approximates input (bind b next') := by
  intro s
  unfold bind
  obtain hx | hx := h s
  · rw [hx]
    exact .inl rfl
  · rw [← hx]
    obtain fault | ⟨value | failure | failure, reached⟩ := a input s
    · exact .inr rfl
    · exact hnext value reached
    · exact .inr rfl
    · exact .inr rfl

private theorem approximates_mapOutcome (f : Outcome α → Outcome β) (h : a.Approximates input b) :
    (mapOutcome f a).Approximates input (mapOutcome f b) := by
  intro s
  unfold mapOutcome
  obtain hx | hx := h s
  · rw [hx]
    exact .inl rfl
  · exact .inr (by rw [hx])

private theorem approximates_atomic (h : a.Approximates input b) :
    (atomic a).Approximates input (atomic b) := by
  intro s
  unfold atomic
  obtain hx | hx := h s
  · rw [hx]
    exact .inl rfl
  · exact .inr (by rw [hx])

private theorem approximates_seq (h : a.Approximates input b) (h' : c.Approximates input d) :
    (seq a c).Approximates input (seq b d) :=
  approximates_atomic (approximates_bind h fun _ ↦ approximates_bind h' fun _ ↦ .refl input _)

private theorem approximates_check (verdict : α → Outcome β) (h : a.Approximates input b) :
    (check a verdict).Approximates input (check b verdict) :=
  approximates_atomic (approximates_bind h fun _ ↦ .refl input _)

private theorem approximates_sameLine (h : a.Approximates input b) :
    (sameLine a).Approximates input (sameLine b) := by
  intro s
  unfold sameLine
  split
  · exact .inr rfl
  · exact h s

private theorem approximates_inBlockColumn (h : a.Approximates input b) :
    (inBlockColumn a).Approximates input (inBlockColumn b) := by
  intro s
  unfold inBlockColumn
  split
  · exact h s
  · exact .inr rfl

private theorem approximates_optional (h : a.Approximates input b) :
    (optional a).Approximates input (optional b) := by
  intro s
  unfold optional
  obtain hx | hx := h s
  · rw [hx]
    exact .inl rfl
  · exact .inr (by rw [hx])

private theorem approximates_orElse {a' b' : Step α} (h : a.Approximates input b)
    (h' : a'.Approximates input b') : (orElse a a').Approximates input (orElse b b') := by
  intro s
  unfold orElse
  obtain hx | hx := h s
  · rw [hx]
    exact .inl rfl
  · rw [← hx]
    obtain fault | ⟨value | failure | failure, reached⟩ := a input s
    · exact .inr rfl
    · exact .inr rfl
    · exact h' (reached.moveTo s.position)
    · exact .inr rfl

private theorem approximates_repeated (h : a.Approximates input b) (allowed : Nat) :
    (repeated a allowed).Approximates input (repeated b allowed) := by
  induction allowed with
  | zero => exact fun _ ↦ .inl rfl
  | succ allowed ih =>
    intro s
    unfold repeated
    obtain hx | hx := h s
    · rw [hx]
      exact .inl rfl
    · rw [← hx]
      obtain fault | ⟨item | failure | failure, reached⟩ := a input s
      · exact .inr rfl
      · dsimp only
        split
        · exact .inr rfl
        · exact approximates_mapOutcome _ ih reached
      · exact .inr rfl
      · exact .inr rfl

private theorem approximates_many (h : a.Approximates input b) :
    (many a).Approximates input (many b) :=
  fun s ↦ approximates_repeated h _ s

private theorem approximates_many1 (h : a.Approximates input b) :
    (many1 a).Approximates input (many1 b) :=
  approximates_atomic (approximates_bind (approximates_many h) fun _ ↦ .refl input _)

private theorem approximates_nonEmpty (what : String) {a b : Step (List α)}
    (h : a.Approximates input b) :
    (nonEmpty what a).Approximates input (nonEmpty what b) :=
  approximates_bind h fun _ ↦ .refl input _

private theorem approximates_line (h : a.Approximates input b) :
    (line a).Approximates input (line b) :=
  approximates_mapOutcome _ (approximates_seq h (.refl input _))

private theorem approximates_aligned (column : Nat) (locate : α → Location)
    (h : a.Approximates input b)
    (allowed : Nat) :
    (aligned column locate a allowed).Approximates input (aligned column locate b allowed) := by
  induction allowed with
  | zero => exact fun _ ↦ .inl rfl
  | succ allowed ih =>
    intro s
    unfold aligned
    split
    · exact .inr rfl
    · obtain hx | hx := h s
      · rw [hx]
        exact .inl rfl
      · rw [← hx]
        obtain fault | ⟨item | failure | failure, reached⟩ := a input s
        · exact .inr rfl
        · dsimp only
          split
          · exact .inr rfl
          · exact approximates_mapOutcome _ ih reached
        · exact .inr rfl
        · exact .inr rfl

private theorem approximates_block (locate : α → Location) (h : a.Approximates input b) :
    (block locate a).Approximates input (block locate b) := by
  intro s
  unfold block
  dsimp only
  split
  · exact .inr rfl
  · split
    · exact .inr rfl
    · next column _ =>
      split
      · exact .inr rfl
      · obtain hx | hx := approximates_aligned column locate (approximates_line h)
          (input.attempts (s.position + input.lineEnds s.position))
          ((s.moveTo (s.position + input.lineEnds s.position)).openBlock column)
        · rw [hx]
          exact .inl rfl
        · exact .inr (by rw [hx])

/-- A remembered rule is approximated by one whose body is. -/
theorem approximates_remembered {rule : Rule} {a b : Step rule.Result}
    (h : a.Approximates input b) :
    (remembered rule a).Approximates input (remembered rule b) := by
  intro s
  unfold remembered
  split
  · dsimp only
    split
    · exact .inr rfl
    · exact .inr rfl
    · next table _ =>
      obtain hx | hx := h { s with table }
      · rw [hx]
        exact .inl rfl
      · exact .inr (by rw [hx])
  · exact h s

end Step

/-- Rules that approximate others make parsers that do. -/
theorem Parser.run_approximates {call call' : (rule : Rule) → Step rule.Result}
    (h : ∀ rule, (call rule).Approximates input (call' rule)) (parser : Parser α) :
    (parser.run call).Approximates input (parser.run call') := by
  induction parser with
  | succeed | fail | here | token | value | endOfStatement => exact .refl input _
  | rule rule => exact h rule
  | sameLine _ ih => exact Step.approximates_sameLine ih
  | inBlockColumn _ ih => exact Step.approximates_inBlockColumn ih
  | onKind _ ih => exact fun s ↦ ih _ s
  | seq _ _ ih ih' => exact Step.approximates_seq ih ih'
  | map f _ ih => exact Step.approximates_mapOutcome (.map f) ih
  | check verdict _ ih => exact Step.approximates_check verdict ih
  | commit _ ih => exact Step.approximates_mapOutcome .commit ih
  | commitAs problem _ ih => exact Step.approximates_mapOutcome (.commitAs problem) ih
  | optional _ ih => exact Step.approximates_optional ih
  | many _ ih => exact Step.approximates_many ih
  | many1 _ ih => exact Step.approximates_many1 ih
  | orElse _ _ ih ih' => exact Step.approximates_orElse ih ih'
  | block locate _ ih => exact Step.approximates_block locate ih
  | nonEmpty what _ ih => exact Step.approximates_nonEmpty what ih

end Offside.Packrat
