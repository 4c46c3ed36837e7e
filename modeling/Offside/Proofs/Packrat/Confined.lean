import Offside.Proofs.Packrat.Rollback
import Offside.Proofs.Packrat.Spelling
import Offside.Proofs.Source.Legible

/-!
# Runs on the tokens of a source text

On the tokens of a source text a run that begins before the end of the input is confined
(`Input.Confines`): it stays before the end, finds the values that it asks tokens for, and blames
every failure on a token of the text, but never for standing in no column. Of a parser this asks
that it reads no end of the input, has words of its own for its failures, blames tokens with its
verdicts and begins the lines of its blocks with items that stand at tokens (`Parser.Candid`,
`Parser.run_confined`).
-/

namespace Offside

/-! ### Causes by their messages -/

/-- The message of the cause is not the one about what stands in no column. -/
def Problem.Told (problem : Problem) : Prop := problem.message ≠ Problem.noColumn.message

-- The text does not begin as the message does about what stands in no column.
private def BeginsOtherwise (text : String) : Prop :=
  ∃ c rest, text.toList = c :: rest ∧ c ≠ 'g'

private theorem BeginsOtherwise.append {front : String} (h : BeginsOtherwise front)
    (back : String) :
    BeginsOtherwise (front ++ back) := by
  obtain ⟨c, rest, hfront, hc⟩ := h
  refine ⟨c, rest ++ back.toList, ?_, hc⟩
  rw [String.toList_append, hfront, List.cons_append]

private theorem BeginsOtherwise.ne {text : String} (h : BeginsOtherwise text) :
    text ≠ Problem.noColumn.message := by
  obtain ⟨c, rest, htext, hc⟩ := h
  have hmessage : Problem.noColumn.message = "generated location cannot delimit a block" := rfl
  rw [hmessage]
  rintro rfl
  have hlist := String.toList_ofList.symm.trans htext
  exact hc (List.cons.inj hlist).1.symm

/-- A cause is told that is stated in words with another first letter. -/
theorem Problem.told_stated {message : String} {c : Char} {rest : List Char}
    (hmessage : message.toList = c :: rest) (hc : c ≠ 'g') : (Problem.stated message).Told :=
  BeginsOtherwise.ne ⟨c, rest, hmessage, hc⟩

/-- The cause is not that something stands in no column, and not stated in any words. -/
def Problem.IsOrdinary : Problem → Prop
  | .noColumn | .stated _ => False
  | _ => True

/-- An ordinary cause is told. -/
theorem Problem.IsOrdinary.told {problem : Problem} (h : problem.IsOrdinary) : problem.Told := by
  refine BeginsOtherwise.ne ?_
  cases problem with
  | noColumn | stated => exact h.elim
  | expectedBlock => exact ⟨_, _, String.toList_ofList, by decide⟩
  | expectedToken kind found =>
    change BeginsOtherwise ("expected " ++ kind.describe ++ ", found " ++ found.describe)
    exact .append (.append (.append ⟨_, _, String.toList_ofList, by decide⟩ _) _) _
  | expectedNamed what found =>
    change BeginsOtherwise ("expected " ++ what ++ ", found " ++ found.describe)
    exact .append (.append (.append ⟨_, _, String.toList_ofList, by decide⟩ _) _) _
  | severalVariadics start =>
    change BeginsOtherwise
      ("pattern starting at " ++ start.text ++ " has more than one variadic element")
    exact .append (.append ⟨_, _, String.toList_ofList, by decide⟩ _) _
  | expectedSameLine | expectedOneOrMore | noAlternative | expectedElse =>
    exact .append ⟨_, _, String.toList_ofList, by decide⟩ _

namespace Packrat

variable {α β : Type} {input : Input}

/-! ### Tokens of a source text -/

/-- The tokens are those that the scanner writes, and behind them stands the end of the input. -/
structure Input.Scanned (input : Input) : Prop where
  nonempty : 0 < input.tokens.size
  placed : ∀ {p}, p < input.tokens.size → (input.tokenAt p).location.isGenerated = false
  inner : ∀ {p}, p + 1 < input.tokens.size → (input.tokenAt p).Scanned
  last : ∀ {p}, p + 1 = input.tokens.size → (input.tokenAt p).kind = .endOfInput

namespace Input.Scanned

variable {p : Nat}

/-- A token that does not end the input is not the last. -/
theorem succ_lt (h : input.Scanned) (hp : p < input.tokens.size)
    (hkind : (input.tokenAt p).kind ≠ .endOfInput) : p + 1 < input.tokens.size :=
  Nat.lt_of_le_of_ne hp fun hlast ↦ hkind (h.last hlast)

private theorem after_lt (h : input.Scanned) (hp : p < input.tokens.size)
    (hkind : (input.tokenAt p).kind ≠ .endOfInput) : input.after p < input.tokens.size := by
  unfold Input.after
  rw [if_pos hp]
  exact h.succ_lt hp hkind

/-- Line ends in a row leave the end of the input. -/
theorem lineEnds_lt (h : input.Scanned) (hp : p < input.tokens.size) :
    p + input.lineEnds p < input.tokens.size := by
  have hwithin := (input.within_lineEnds p).2
  apply Nat.lt_of_not_le
  intro hle
  have hmem := input.tokenAt_mem_segment (p := p) (q := p + input.lineEnds p)
    (r := input.tokens.size - 1) (by omega) (by omega) (by omega)
  have hline := input.lineEnds_segment p _ hmem
  rw [h.last (by omega)] at hline
  cases hline

/-- Only the last token ends the input. -/
theorem eq_of_kind (h : input.Scanned) (hp : p < input.tokens.size)
    (hkind : (input.tokenAt p).kind = .endOfInput) : p + 1 = input.tokens.size := by
  apply Nat.le_antisymm hp
  apply Nat.le_of_not_lt
  intro hlt
  exact (h.inner hlt).kind_ne hkind

end Input.Scanned

/-- The tokens of a source text are scanned. -/
theorem Input.scanned_of_ofSource {file source : String} {tokens : List Token}
    (h : Token.ofSource file source = .ok tokens) (memoize : Bool) :
    Input.Scanned ⟨tokens.toArray, memoize⟩ := by
  obtain ⟨row, last, rfl, hrow, hkind, hplaced⟩ := Token.scanned_of_scan h
  have hsize : (row ++ [last]).toArray.size = row.length + 1 := by simp
  have hinner {p : Nat} (hp : p < row.length) :
      Input.tokenAt ⟨(row ++ [last]).toArray, memoize⟩ p = row[p] := by
    rw [Input.tokenAt, List.getElem?_toArray, List.getElem?_append_left hp,
      List.getElem?_eq_getElem hp, Option.getD_some]
  have hlast : Input.tokenAt ⟨(row ++ [last]).toArray, memoize⟩ row.length = last := by
    simp [Input.tokenAt]
  refine ⟨by simp, fun {p} hp ↦ ?_, fun {p} hp ↦ ?_, fun {p} hp ↦ ?_⟩
  · rw [hsize] at hp
    obtain hp | rfl := Nat.lt_succ_iff_lt_or_eq.1 hp
    · rw [hinner hp]
      exact (hrow _ (List.getElem_mem hp)).placed
    · rwa [hlast]
  · rw [hsize] at hp
    have hp : p < row.length := Nat.lt_of_succ_lt_succ hp
    rw [hinner hp]
    exact hrow _ (List.getElem_mem hp)
  · rw [hsize] at hp
    rw [Nat.succ.inj hp, hlast, hkind]

/-! ### Confined steps -/

/-- The failure is located at a token of the input, and its message is not the one about what stands
in no column. -/
structure Input.Blames (input : Input) (failure : Failure) : Prop where
  located : ∃ p < input.tokens.size, failure.location = (input.tokenAt p).location
  told : failure.problem.Told

private theorem Input.blames_at {p : Nat} (hp : p < input.tokens.size) {problem : Problem}
    (h : problem.Told) : input.Blames ⟨(input.tokenAt p).location, problem⟩ :=
  ⟨⟨p, hp, rfl⟩, h⟩

/-- Every failure of the outcome is blamed on a token. -/
def Input.BlamesAll (input : Input) (outcome : Outcome α) : Prop :=
  ∀ failure, outcome.failure? = some failure → input.Blames failure

/-- The answer is not a fault, unless by exhaustion; the position it leaves lies before the end of
the input; and a failure is blamed on a token. -/
def Input.Confines (input : Input) : Except Fault (Outcome α × State) → Prop
  | .error fault => fault = .exhausted
  | .ok (outcome, reached) => reached.position < input.tokens.size ∧ input.BlamesAll outcome

/-- Begun before the end of the input, the step is confined. -/
def Step.Confined (input : Input) (step : Step α) : Prop :=
  ∀ s : State, s.position < input.tokens.size → input.Confines (step input s)

/-- A success blames nothing that is not there. -/
theorem Input.blamesAll_ok (value : α) : input.BlamesAll (.ok value) := by
  intro failure h
  cases h

/-- A recoverable outcome blames what its failure does. -/
theorem Input.blamesAll_recoverable {failure : Failure} :
    input.BlamesAll (.recoverable failure : Outcome α) ↔ input.Blames failure := by
  simp [Input.BlamesAll, Outcome.failure?]

private theorem Input.blamesAll_fatal {failure : Failure} :
    input.BlamesAll (.fatal failure : Outcome α) ↔ input.Blames failure := by
  simp [Input.BlamesAll, Outcome.failure?]

namespace Step

variable {a : Step α} {b : Step β}

/-- A confined step stays before the end of the input. -/
theorem Confined.lt (h : a.Confined input) {s s' : State} {outcome : Outcome α}
    (hs : s.position < input.tokens.size) (ha : a input s = .ok (outcome, s')) :
    s'.position < input.tokens.size := by
  have hconfines := h s hs
  rw [ha] at hconfines
  exact hconfines.1

private theorem confines_fail {s : State} (hs : s.position < input.tokens.size)
    {problem : Terminal → Problem} (h : ∀ terminal, (problem terminal).Told) :
    input.Confines ((fail problem : Step α) input s) :=
  ⟨hs, Input.blamesAll_recoverable.2 (input.blames_at hs (h _))⟩

/-- A token is confined if it is not that of the end of the input. -/
theorem confined_token (hinput : input.Scanned) {kind : TokenKind} (h : kind ≠ .endOfInput) :
    (token kind).Confined input := by
  intro s hs
  unfold token
  dsimp only
  split
  · next hkind =>
    refine ⟨?_, Input.blamesAll_ok _⟩
    rw [State.advance_eq]
    exact hinput.after_lt hs fun hend ↦ h (hkind.symm.trans hend)
  · exact confines_fail hs fun _ ↦ Problem.IsOrdinary.told trivial

/-- A value is there if every token of the kind that the scanner writes carries one. -/
theorem confined_value (hinput : input.Scanned) {kind : TokenKind} {read : Payload → Option α}
    (h : kind ≠ .endOfInput)
    (hread : ∀ token : Token, token.Scanned → token.kind = kind → (read token.payload).isSome) :
    (value kind read).Confined input := by
  intro s hs
  have htoken := confined_token hinput h s hs
  unfold value
  split
  · next fault hfault => rwa [hfault] at htoken
  · next found reached hfound =>
    rw [hfound] at htoken
    obtain ⟨hkind, rfl, rfl⟩ := token_eq_ok.1 hfound
    have hscanned := hinput.inner (hinput.succ_lt hs (by rwa [hkind]))
    obtain ⟨result, hresult⟩ := Option.isSome_iff_exists.1 (hread _ hscanned hkind)
    rw [hresult]
    exact ⟨htoken.1, Input.blamesAll_ok _⟩
  · next failure reached hfailure => 
    rw [hfailure] at htoken
    exact ⟨htoken.1, htoken.2⟩
  · next failure reached hfailure => 
    rw [hfailure] at htoken
    exact ⟨htoken.1, htoken.2⟩

private theorem confined_endOfStatement (hinput : input.Scanned) :
    endOfStatement.Confined input := by
  intro s hs
  unfold endOfStatement
  split
  · next hkind =>
    refine ⟨?_, Input.blamesAll_ok _⟩
    rw [State.advance_eq]
    exact hinput.after_lt hs fun hend ↦ nomatch hkind.symm.trans hend
  · split
    · exact ⟨hs, Input.blamesAll_ok _⟩
    · exact confines_fail hs fun _ ↦ Problem.IsOrdinary.told trivial

private theorem confined_bind {next : α → Step β} (h : a.Confined input)
    (hnext : ∀ {s found m}, s.position < input.tokens.size → a input s = .ok (.ok found, m) →
      m.position < input.tokens.size → input.Confines (next found input m)) :
    (bind a next).Confined input := by
  intro s hs
  have ha := h s hs
  unfold bind
  split
  · next fault hfault => rwa [hfault] at ha
  · next found m hfound =>
    rw [hfound] at ha
    exact hnext hs hfound ha.1
  · next failure m hfailure =>
    rw [hfailure] at ha
    exact ⟨ha.1, ha.2⟩
  · next failure m hfailure =>
    rw [hfailure] at ha
    exact ⟨ha.1, ha.2⟩

private theorem confined_mapOutcome {f : Outcome α → Outcome β} (h : a.Confined input)
    (hf : ∀ outcome, input.BlamesAll outcome → input.BlamesAll (f outcome)) :
    (mapOutcome f a).Confined input := by
  intro s hs
  have ha := h s hs
  unfold mapOutcome
  split
  · next fault hfault => rwa [hfault] at ha
  · next outcome m houtcome =>
    rw [houtcome] at ha
    exact ⟨ha.1, hf outcome ha.2⟩

/-- A function of what is read is confined where the step is. -/
theorem confined_map (f : α → β) (h : a.Confined input) :
    (mapOutcome (.map f) a).Confined input := by
  refine confined_mapOutcome h fun outcome houtcome ↦ ?_
  cases outcome with
  | ok value => exact Input.blamesAll_ok _
  | recoverable | fatal => exact houtcome

private theorem confined_commit (h : a.Confined input) : (mapOutcome .commit a).Confined input := by
  refine confined_mapOutcome h fun outcome houtcome ↦ ?_
  cases outcome <;> exact houtcome

private theorem confined_commitAs {problem : Problem} (hproblem : problem.Told)
    (h : a.Confined input) :
    (mapOutcome (.commitAs problem) a).Confined input := by
  refine confined_mapOutcome h fun outcome houtcome ↦ ?_
  cases outcome with
  | ok | fatal => exact houtcome
  | recoverable failure =>
    have hlocated := (Input.blamesAll_recoverable.1 houtcome).located
    exact Input.blamesAll_fatal.2 ⟨hlocated, hproblem⟩

private theorem confined_atomic (h : a.Confined input) : (atomic a).Confined input := by
  intro s hs
  have ha := h s hs
  unfold atomic
  split
  · next fault hfault => rwa [hfault] at ha
  · next found m hfound => rwa [hfound] at ha
  · next outcome m _ houtcome =>
    rw [houtcome] at ha
    exact ⟨hs, ha.2⟩

/-- Two confined steps in order are confined. -/
theorem confined_seq (h : a.Confined input) (h' : b.Confined input) :
    (seq a b).Confined input := by
  have hpair (found : α) : (bind b fun other ↦ succeed (found, other)).Confined input :=
    confined_bind h' fun _ _ hm ↦ ⟨hm, Input.blamesAll_ok _⟩
  exact confined_atomic (confined_bind h fun _ _ hm ↦ hpair _ _ hm)

/-- A verdict on what is found before the end of the input must blame a token. -/
theorem confined_check {verdict : α → Outcome β} (h : a.Confined input)
    (hverdict : ∀ {s found m}, s.position < input.tokens.size → a input s = .ok (.ok found, m) →
      input.BlamesAll (verdict found)) : (check a verdict).Confined input :=
  confined_atomic (confined_bind h fun hs hfound hm ↦ ⟨hm, hverdict hs hfound⟩)

private theorem confined_sameLine (h : a.Confined input) : (sameLine a).Confined input := by
  intro s hs
  unfold sameLine
  split
  · exact confines_fail hs fun _ ↦ Problem.IsOrdinary.told trivial
  · exact h s hs

private theorem confined_inBlockColumn (h : a.Confined input) :
    (inBlockColumn a).Confined input := by
  intro s hs
  unfold inBlockColumn
  split
  · exact h s hs
  · exact confines_fail hs fun _ ↦ Problem.IsOrdinary.told trivial

private theorem confined_optional (h : a.Confined input) : (optional a).Confined input := by
  intro s hs
  have ha := h s hs
  unfold optional
  split
  · next fault hfault => rwa [hfault] at ha
  · next found m hfound =>
    rw [hfound] at ha
    exact ⟨ha.1, Input.blamesAll_ok _⟩
  · exact ⟨hs, Input.blamesAll_ok _⟩
  · next failure m hfailure =>
    rw [hfailure] at ha
    exact ⟨ha.1, ha.2⟩

private theorem confined_orElse {b : Step α} (h : a.Confined input) (h' : b.Confined input) :
    (orElse a b).Confined input := by
  intro s hs
  unfold orElse
  split
  · exact h' _ hs
  · exact h s hs

private theorem confined_repeated (h : a.Confined input) (allowed : Nat) :
    (repeated a allowed).Confined input := by
  induction allowed with
  | zero => exact fun _ _ ↦ rfl
  | succ allowed ih =>
    intro s hs
    have ha := h s hs
    unfold repeated
    split
    · next fault hfault => rwa [hfault] at ha
    · exact ⟨hs, Input.blamesAll_ok _⟩
    · next failure m hfailure =>
      rw [hfailure] at ha
      exact ⟨ha.1, ha.2⟩
    · next item m hitem =>
      rw [hitem] at ha
      split
      · exact ⟨ha.1, Input.blamesAll_ok _⟩
      · exact confined_map _ ih m ha.1

/-- The successes of a confined step in a row are confined. -/
theorem confined_many (h : a.Confined input) : (many a).Confined input :=
  fun s hs ↦ confined_repeated h _ s hs

private theorem confined_many1 (h : a.Confined input) : (many1 a).Confined input := by
  refine confined_atomic (confined_bind (confined_many h) fun _ _ hm ↦ ?_)
  split
  · exact confines_fail hm fun _ ↦ Problem.IsOrdinary.told trivial
  · exact ⟨hm, Input.blamesAll_ok _⟩

private theorem confined_nonEmpty (hinput : input.Scanned) (what : String) {a : Step (List α)}
    (h : a.Confined input) : (nonEmpty what a).Confined input := by
  refine confined_bind h fun _ _ hm ↦ ?_
  split
  · refine ⟨hm, Input.blamesAll_recoverable.2 ?_⟩
    exact input.blames_at (hinput.lineEnds_lt hm) (Problem.IsOrdinary.told trivial)
  · exact ⟨hm, Input.blamesAll_ok _⟩

private theorem confined_line (hinput : input.Scanned) (h : a.Confined input) :
    (line a).Confined input :=
  confined_map _ (confined_seq h (confined_many (confined_token hinput (by decide))))

/-- The lines of a column are confined if their items stand at tokens. -/
theorem confined_aligned (column : Nat) {locate : α → Location} (h : a.Confined input)
    (hlocate : ∀ {s found m}, s.position < input.tokens.size → a input s = .ok (.ok found, m) →
      (locate found).isGenerated = false) (allowed : Nat) :
    (aligned column locate a allowed).Confined input := by
  induction allowed with
  | zero => exact fun _ _ ↦ rfl
  | succ allowed ih =>
    intro s hs
    have ha := h s hs
    unfold aligned
    split
    · exact ⟨hs, Input.blamesAll_ok _⟩
    · split
      · next fault hfault => rwa [hfault] at ha
      · exact ⟨hs, Input.blamesAll_ok _⟩
      · next failure m hfailure =>
        rw [hfailure] at ha
        exact ⟨ha.1, ha.2⟩
      · next item m hitem =>
        rw [hitem] at ha
        rw [if_neg (by simp [hlocate hs hitem])]
        exact confined_map _ ih m ha.1

private theorem confined_block (hinput : input.Scanned) {locate : α → Location}
    (h : a.Confined input)
    (hlocate : ∀ {s found m}, s.position < input.tokens.size → a input s = .ok (.ok found, m) →
      (locate found).isGenerated = false) : (block locate a).Confined input := by
  intro s hs
  have hopening := hinput.lineEnds_lt hs
  have hblame {problem : Problem} (hproblem : problem.Told) :=
    input.blames_at hopening hproblem
  unfold block
  dsimp only
  split
  · exact ⟨hs, Input.blamesAll_recoverable.2 (hblame (Problem.IsOrdinary.told trivial))⟩
  · cases hcolumn : (input.tokenAt (s.position + input.lineEnds s.position)).location.column? with
    | none =>
      have hplaced := hinput.placed hopening
      cases hlocation : (input.tokenAt (s.position + input.lineEnds s.position)).location with
      | concrete => simp [hlocation, Location.column?] at hcolumn
      | generated => simp [hlocation, Location.isGenerated] at hplaced
    | some column =>
      dsimp only
      split
      · exact ⟨hs, Input.blamesAll_recoverable.2 (hblame (Problem.IsOrdinary.told trivial))⟩
      · have hlines := confined_aligned column (confined_line hinput h)
          (fun {s found m} hs hline ↦ by
            obtain ⟨⟨_, ends⟩, hseq, rfl⟩ := map_eq_ok.1 hline
            obtain ⟨k, hitem, -⟩ := seq_eq_ok.1 hseq
            exact hlocate hs hitem) (input.attempts (s.position + input.lineEnds s.position))
          ((s.moveTo (s.position + input.lineEnds s.position)).openBlock column) hopening
        split
        · next fault hfault => rwa [hfault] at hlines
        · exact ⟨hs, Input.blamesAll_ok _⟩
        · next outcome m _ houtcome =>
          rw [houtcome] at hlines
          exact ⟨hlines.1, hlines.2⟩

end Step

/-! ### Decided answers -/

/-- The answer is a success or a fatal failure that is blamed on a token, or a fault by
exhaustion. -/
def Input.Decides (input : Input) : Except Fault (Outcome α × State) → Prop
  | .error fault => fault = .exhausted
  | .ok (.ok _, _) => True
  | .ok (.recoverable _, _) => False
  | .ok (.fatal failure, _) => input.Blames failure

namespace Step

variable {a : Step α} {b : Step β} {s : State}

/-- A function of what is read decides the input where the step does. -/
theorem decides_map (f : α → β) (h : input.Decides (a input s)) :
    input.Decides (mapOutcome (.map f) a input s) := by
  unfold mapOutcome
  revert h
  rcases a input s with fault | ⟨found | failure | failure, m⟩ <;> exact id

private theorem decides_bind {next : α → Step β} (h : input.Decides (a input s))
    (hnext : ∀ found m, a input s = .ok (.ok found, m) → input.Decides (next found input m)) :
    input.Decides (bind a next input s) := by
  unfold bind
  rcases ha : a input s with fault | ⟨found | failure | failure, m⟩
  · rwa [ha] at h
  · exact hnext found m ha
  · rw [ha] at h
    exact h.elim
  · rwa [ha] at h

/-- Two steps in order decide the input if the first does, and the second wherever the first
succeeds. -/
theorem decides_seq (h : input.Decides (a input s))
    (h' : ∀ found m, a input s = .ok (.ok found, m) → input.Decides (b input m)) :
    input.Decides (seq a b input s) := by
  have hboth : input.Decides
    (bind a (fun found ↦ bind b fun other ↦ succeed (found, other)) input s) :=
    decides_bind h fun found m ha ↦ decides_bind (h' found m ha) fun _ _ _ ↦ trivial
  unfold seq atomic
  split
  · next hfault => rwa [hfault] at hboth
  · trivial
  · next outcome m _ houtcome =>
    rw [houtcome] at hboth
    cases outcome <;> exact hboth

/-- A repetition never fails recoverably. -/
theorem decides_many (h : a.Confined input) (hs : s.position < input.tokens.size) :
    input.Decides (many a input s) := by
  have hmany := confined_many h s hs
  rcases hr : many a input s with fault | ⟨found | failure | failure, m⟩
  · rwa [hr] at hmany
  · trivial
  · exact absurd hr (repeated_ne_recoverable _)
  · rw [hr] at hmany
    exact Input.blamesAll_fatal.1 hmany.2

/-- A token that is certain is found, or its want blamed on the one that stands there. -/
theorem decides_commit_token (kind : TokenKind) (hs : s.position < input.tokens.size) :
    input.Decides (mapOutcome .commit (token kind) input s) := by
  unfold mapOutcome token
  dsimp only
  split
  · next heq =>
    split at heq <;> cases heq
  · next outcome m heq =>
    split at heq
    · cases heq
      trivial
    · cases heq
      exact input.blames_at hs (Problem.IsOrdinary.told trivial)

end Step

/-! ### Candid parsers -/

namespace Parser

/-- What a parser must do for its runs to be confined, if the rules `inside` are confined and
`rules` tells what rules accept: values that are asked for are there, causes are told, verdicts on
what is accepted before the end of the input blame tokens, and the lines of blocks that begin there
begin with items that stand at tokens. -/
def Candid (input : Input) (inside : Rule → Prop)
    (rules : Nat → (rule : Rule) → Nat → Nat → rule.Result → Prop) : {α : Type} → Parser α → Prop
  | _, fail problem => ∀ terminal, (problem terminal).Told
  | _, token kind => kind ≠ .endOfInput
  | _, value kind read => kind ≠ .endOfInput ∧
      ∀ token : Token, token.Scanned → token.kind = kind → (read token.payload).isSome
  | _, rule name => inside name
  | _, seq first second | _, orElse first second =>
    first.Candid input inside rules ∧ second.Candid input inside rules
  | _, onKind choices => ∀ kind, (choices kind).Candid input inside rules
  | _, check verdict inner => inner.Candid input inside rules ∧
      ∀ indent p q found, p < input.tokens.size → inner.Accepts input rules indent p q found →
        input.BlamesAll (verdict found)
  | _, commitAs problem inner => problem.Told ∧ inner.Candid input inside rules
  | _, block locate item => item.Candid input inside rules ∧
      ∀ indent p q found, p < input.tokens.size → item.Accepts input rules indent p q found →
        (locate found).isGenerated = false
  | _, sameLine inner | _, inBlockColumn inner | _, map _ inner | _, commit inner
  | _, optional inner | _, many inner | _, many1 inner | _, nonEmpty _ inner =>
    inner.Candid input inside rules
  | _, succeed _ | _, here | _, endOfStatement => True

/-- Runs of a candid parser are confined if those of the rules are. -/
theorem run_confined {tokens : Array Token} {call : (rule : Rule) → Step rule.Result}
    {rules : Nat → (rule : Rule) → Nat → Nat → rule.Result → Prop} {inside : Rule → Prop}
    (hinput : Input.Scanned ⟨tokens, false⟩)
    (hagrees : ∀ rule, Step.Agrees tokens false (fun _ ↦ True) (call rule) (call rule))
    (hrules : ∀ rule s found s', call rule ⟨tokens, false⟩ s = .ok (.ok found, s') →
      rules s.indent rule s.position s'.position found)
    (hcall : ∀ rule, inside rule → (call rule).Confined ⟨tokens, false⟩)
    {parser : Parser α} (hcandid : parser.Candid ⟨tokens, false⟩ inside rules) :
    (parser.run call).Confined ⟨tokens, false⟩ := by
  induction parser with
  | succeed | here => exact fun s hs ↦ ⟨hs, Input.blamesAll_ok _⟩
  | fail problem => exact fun s hs ↦ Step.confines_fail hs hcandid
  | token kind => exact Step.confined_token hinput hcandid
  | value kind read => exact Step.confined_value hinput hcandid.1 hcandid.2
  | endOfStatement => exact Step.confined_endOfStatement hinput
  | rule rule => exact hcall rule hcandid
  | sameLine inner ih => exact Step.confined_sameLine (ih hcandid)
  | inBlockColumn inner ih => exact Step.confined_inBlockColumn (ih hcandid)
  | onKind choices ih => exact fun s hs ↦ ih _ (hcandid _) s hs
  | seq first second ih ih' => exact Step.confined_seq (ih hcandid.1) (ih' hcandid.2)
  | map f inner ih => exact Step.confined_map f (ih hcandid)
  | check verdict inner ih =>
    refine Step.confined_check (ih hcandid.1) fun hs hfound ↦ ?_
    exact hcandid.2 _ _ _ _ hs (inner.accepts_of_run hagrees hrules hfound)
  | commit inner ih => exact Step.confined_commit (ih hcandid)
  | commitAs problem inner ih => exact Step.confined_commitAs hcandid.1 (ih hcandid.2)
  | optional inner ih => exact Step.confined_optional (ih hcandid)
  | many inner ih => exact Step.confined_many (ih hcandid)
  | many1 inner ih => exact Step.confined_many1 (ih hcandid)
  | orElse first second ih ih' => exact Step.confined_orElse (ih hcandid.1) (ih' hcandid.2)
  | block locate item ih =>
    refine Step.confined_block hinput (ih hcandid.1) fun hs hfound ↦ ?_
    exact hcandid.2 _ _ _ _ hs (item.accepts_of_run hagrees hrules hfound)
  | nonEmpty what inner ih => exact Step.confined_nonEmpty hinput what (ih hcandid)

end Parser

end Packrat

end Offside
