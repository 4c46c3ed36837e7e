import Offside.Proofs.Packrat.Progress
import Offside.Proofs.Packrat.Spelling

/-!
# Parsing by what lies ahead

Two states on two inputs are abreast if the same tokens lie ahead of them, among which one ends the
input, inside innermost blocks of one column (`Abreast`). A step goes by what lies ahead if from
such states it answers the same on both inputs and passes as many tokens (`Step.Prospective`). The
steps that look back ask for more: that a line has ended just behind both states or behind neither.
A parser asks for this only behind a token that it has passed itself
(`Parser.LooksAhead`), and then both states have passed the same one (`Parser.run_prospective`).
-/

namespace Offside.Packrat

variable {α β : Type}

/-! ### States with the same tokens ahead -/

namespace Input

/-- One of the tokens from a position on ends the input. -/
def EndsAfter (input : Input) (position : Nat) : Prop :=
  ∃ token ∈ input.tokens.toList.drop position, token.kind = .endOfInput

private theorem EndsAfter.lt_size {input : Input} {p : Nat} (h : input.EndsAfter p) :
    p < input.tokens.size := by
  obtain ⟨token, htoken, -⟩ := h
  rw [← Nat.not_le]
  intro hle
  rw [List.drop_eq_nil_of_le (by simpa using hle)] at htoken
  cases htoken

/-- Behind a token that does not end the input the input still ends later. -/
theorem EndsAfter.succ {input : Input} {p : Nat} (h : input.EndsAfter p)
    (hkind : (input.tokenAt p).kind ≠ .endOfInput) : input.EndsAfter (p + 1) := by
  have hp := h.lt_size
  obtain ⟨token, htoken, hend⟩ := h
  rw [List.drop_eq_getElem_cons (by simpa using hp)] at htoken
  obtain rfl | htoken := List.mem_cons.1 htoken
  · rw [tokenAt, Array.getElem?_eq_getElem hp] at hkind
    exact absurd hend hkind
  · exact ⟨token, htoken, hend⟩

/-- Behind line ends the input still ends later. -/
theorem EndsAfter.lineEnds {input : Input} {p : Nat} (h : input.EndsAfter p) :
    input.EndsAfter (p + input.lineEnds p) := by
  obtain ⟨token, htoken, hend⟩ := h
  refine ⟨token, ?_, hend⟩
  have hlines := input.lineEnds_segment p
  rw [← List.take_append_drop (input.lineEnds p) (input.tokens.toList.drop p)] at htoken
  obtain htaken | hdropped := List.mem_append.1 htoken
  · have hline := hlines token (by rwa [segment, Nat.add_sub_cancel_left])
    rw [hend] at hline
    cases hline
  · rwa [List.drop_drop] at hdropped

end Input

/-- The same tokens lie ahead of the states on their inputs, the end of an input among them, and the
innermost blocks stand in one column. If it is `known` whether a line has ended just behind, it has
behind both states or behind neither. -/
structure Abreast (known : Prop) (i j : Input) (s t : State) : Prop where
  ahead : i.tokens.toList.drop s.position = j.tokens.toList.drop t.position
  ends : i.EndsAfter s.position
  indent : s.indent = t.indent
  behind : known → s.isBehindLineEnd i = t.isBehindLineEnd j

namespace Abreast

variable {known : Prop} {i j : Input} {s t : State}

/-- What is read of the tokens ahead is the same on both inputs. -/
theorem getElem?_add (h : Abreast known i j s t) (k : Nat) :
    i.tokens[s.position + k]? = j.tokens[t.position + k]? := by
  have hk := congrArg (·[k]?) h.ahead
  simpa only [List.getElem?_drop, Array.getElem?_toList] using hk

private theorem tokenAt_add (h : Abreast known i j s t) {k : Nat}
    (hk : i.EndsAfter (s.position + k)) :
    i.tokenAt (s.position + k) = j.tokenAt (t.position + k) := by
  have hsame := h.getElem?_add k
  rw [Array.getElem?_eq_getElem hk.lt_size] at hsame
  rw [Input.tokenAt, Input.tokenAt, ← hsame, Array.getElem?_eq_getElem hk.lt_size]
  rfl

private theorem current (h : Abreast known i j s t) : s.current i = t.current j :=
  h.tokenAt_add (k := 0) h.ends

private theorem lineEnds (h : Abreast known i j s t) : i.lineEnds s.position =
    j.lineEnds t.position := by
  rw [Input.lineEnds, Input.lineEnds, h.ahead]

private theorem attempts_add (h : Abreast known i j s t) (k : Nat) :
    i.attempts (s.position + k) = j.attempts (t.position + k) := by
  have hlength := congrArg List.length h.ahead
  simp only [List.length_drop, Array.length_toList] at hlength
  unfold Input.attempts
  omega

/-- States that pass as many tokens stay abreast. What they have passed they know. -/
theorem moved (h : Abreast known i j s t) {count : Nat}
    (hends : i.EndsAfter (s.position + count)) :
    Abreast (known ∨ 0 < count) i j (s.moveTo (s.position + count))
      (t.moveTo (t.position + count)) := by
  refine ⟨?_, hends, h.indent, fun hknown ↦ ?_⟩
  · simp only [State.position_moveTo, ← List.drop_drop, h.ahead]
  · cases count with
    | zero => exact h.behind (hknown.resolve_right (Nat.lt_irrefl 0))
    | succ count =>
      have hsame : (s.moveTo (s.position + (count + 1))).previous? i =
          (t.moveTo (t.position + (count + 1))).previous? j := h.getElem?_add count
      unfold State.isBehindLineEnd
      rw [hsame]

/-- States that pass as many tokens stay abreast. -/
theorem moved_of_known (h : Abreast known i j s t) {count : Nat}
    (hends : i.EndsAfter (s.position + count)) :
    Abreast known i j (s.moveTo (s.position + count)) (t.moveTo (t.position + count)) :=
  have hmoved := h.moved hends
  ⟨hmoved.ahead, hmoved.ends, hmoved.indent, fun hknown ↦ hmoved.behind (.inl hknown)⟩

/-- States that are abreast stay so when both open a block of one column. -/
theorem opened (h : Abreast known i j s t) (column : Nat) :
    Abreast known i j (s.openBlock column) (t.openBlock column) :=
  ⟨h.ahead, h.ends, rfl, h.behind⟩

private theorem mono {known' : Prop} (h : Abreast known i j s t) (himp : known' → known) :
    Abreast known' i j s t :=
  ⟨h.ahead, h.ends, h.indent, h.behind ∘ himp⟩

/-- Both states may pass a token. -/
theorem advance (h : Abreast known i j s t) :
    s.advance i = s.moveTo (s.position + 1) ∧ t.advance j = t.moveTo (t.position + 1) := by
  have hsize := h.ends.lt_size
  have hlength := congrArg List.length h.ahead
  simp only [List.length_drop, Array.length_toList] at hlength
  exact ⟨if_pos hsize, if_pos (by omega)⟩

end Abreast

/-! ### Steps that go by what lies ahead -/

/-- The answers of two runs from `s` and from `t` are the same but for where they began: the same
fault, or the same outcome with as many tokens passed. If the runs stay `inside`, the input still
ends later. -/
inductive Tied (inside : Prop) (i : Input) (s t : State) :
    Except Fault (Outcome α × State) → Except Fault (Outcome α × State) → Prop where
  | fault (fault : Fault) : Tied inside i s t (.error fault) (.error fault)
  | answer (outcome : Outcome α) (count : Nat)
      (ends : inside → i.EndsAfter (s.position + count)) :
      Tied inside i s t (.ok (outcome, s.moveTo (s.position + count)))
        (.ok (outcome, t.moveTo (t.position + count)))

/-- The step goes by what lies ahead of states on the two inputs and, if it is `known`, by whether a
line has ended just behind them. -/
def Step.Prospective (known : Prop) (i j : Input) (step : Step α) : Prop :=
  ∀ s t, Abreast known i j s t → Tied True i s t (step i s) (step j t)

section Tied

variable {known inside : Prop} {i j : Input} {s t : State}

/-- Both runs may answer without moving. -/
theorem Tied.stay (h : Abreast known i j s t) (outcome : Outcome α) :
    Tied inside i s t (.ok (outcome, s)) (.ok (outcome, t)) :=
  .answer outcome 0 fun _ ↦ h.ends

/-- Answers that are tied from later positions are tied from where the runs began. -/
theorem Tied.rebase {count : Nat} {x y : Except Fault (Outcome α × State)}
    (h : Tied inside i (s.moveTo (s.position + count)) (t.moveTo (t.position + count)) x y) :
    Tied inside i s t x y := by
  cases h with
  | fault fault => exact .fault fault
  | answer outcome more ends =>
    simp only [State.position_moveTo, Nat.add_assoc] at ends ⊢
    exact .answer outcome (count + more) ends

end Tied

namespace Step

variable {known inside : Prop} {i j : Input} {s t : State} {a : Step α} {b : Step β}

/-- What a step looks at less, it may know more of. -/
theorem Prospective.mono {known' : Prop} (h : a.Prospective known i j) (himp : known → known') :
    a.Prospective known' i j :=
  fun s t habreast ↦ h s t (habreast.mono himp)

private theorem prospective_succeed (value : α) : (succeed value).Prospective known i j :=
  fun _ _ h ↦ .stay h _

private theorem tied_fail (h : Abreast known i j s t) (problem : Terminal → Problem) :
    Tied inside i s t (fail (α := α) problem i s) (fail problem j t) := by
  unfold fail
  rw [h.current]
  exact .stay h _

/-- The location of the next token is known if the token is. -/
theorem prospective_here : here.Prospective known i j := by
  intro s t h
  unfold here
  rw [h.current]
  exact .stay h _

/-- A token is found on both inputs or on neither. Whoever stays inside does not ask for the end of
the input. -/
theorem tied_token (h : Abreast known i j s t) (kind : TokenKind)
    (hinside : inside → kind ≠ .endOfInput) :
    Tied inside i s t (token kind i s) (token kind j t) := by
  unfold token
  rw [← h.current]
  dsimp only
  split
  · next hkind =>
    rw [h.advance.1, h.advance.2]
    exact .answer _ 1 fun hin ↦ h.ends.succ fun hend ↦ hinside hin (hkind.symm.trans hend)
  · exact tied_fail h _

private theorem prospective_token {kind : TokenKind} (hkind : kind ≠ .endOfInput) :
    (token kind).Prospective known i j :=
  fun _ _ h ↦ tied_token h kind fun _ ↦ hkind

private theorem prospective_value {kind : TokenKind} (hkind : kind ≠ .endOfInput)
    (read : Payload → Option α) : (value kind read).Prospective known i j := by
  intro s t h
  have htoken : Tied True i s t (token kind i s) (token kind j t) :=
    tied_token h kind fun _ ↦ hkind
  unfold value
  revert htoken
  generalize token kind i s = x, token kind j t = y
  rintro (fault | ⟨found | failure | failure, count, ends⟩)
  · exact .fault fault
  · dsimp only
    split
    · exact .answer _ count ends
    · exact .fault _
  · exact .answer _ count ends
  · exact .answer _ count ends

private theorem prospective_endOfStatement (hknown : known) :
    endOfStatement.Prospective known i j := by
  intro s t h
  unfold endOfStatement
  rw [← h.current, ← h.behind hknown]
  split
  · next hkind =>
    rw [h.advance.1, h.advance.2]
    exact .answer _ 1 fun _ ↦ h.ends.succ fun hend ↦ nomatch hkind.symm.trans hend
  · split
    · exact .stay h _
    · exact tied_fail h _

private theorem prospective_sameLine (hknown : known) (h : a.Prospective known i j) :
    (sameLine a).Prospective known i j := by
  intro s t habreast
  unfold sameLine
  rw [habreast.behind hknown]
  split
  · exact tied_fail habreast _
  · exact h s t habreast

private theorem prospective_inBlockColumn (h : a.Prospective known i j) :
    (inBlockColumn a).Prospective known i j := by
  intro s t habreast
  unfold inBlockColumn
  rw [habreast.current, habreast.indent]
  split
  · exact h s t habreast
  · exact tied_fail habreast _

private theorem prospective_onKind {steps : TokenKind → Step α}
    (h : ∀ kind, (steps kind).Prospective known i j) : (onKind steps).Prospective known i j := by
  intro s t habreast
  unfold onKind
  rw [habreast.current]
  exact h _ s t habreast

/-- The second step may know of what the first has passed. -/
theorem tied_bind {known' : Prop} {next : α → Step β} (habreast : Abreast known i j s t)
    (h : Tied True i s t (a i s) (a j t))
    (hknown : known' → known ∨ ∀ found s', a i s = .ok (.ok found, s') → s.position < s'.position)
    (hnext : ∀ found s t, Abreast known' i j s t →
      Tied inside i s t (next found i s) (next found j t)) :
    Tied inside i s t (bind a next i s) (bind a next j t) := by
  unfold bind
  revert h hknown
  generalize a i s = x, a j t = y
  rintro (fault | ⟨found | failure | failure, count, ends⟩) hknown
  · exact .fault fault
  · refine (hnext found _ _ ((habreast.moved (ends trivial)).mono fun h ↦ ?_)).rebase
    refine (hknown h).imp id fun hpassed ↦ ?_
    have hlt := hpassed found _ rfl
    rw [State.position_moveTo] at hlt
    omega
  · exact .answer _ count fun _ ↦ ends trivial
  · exact .answer _ count fun _ ↦ ends trivial

/-- Steps stay tied when their outcomes are changed alike. -/
theorem tied_mapOutcome (f : Outcome α → Outcome β) (h : Tied inside i s t (a i s) (a j t)) :
    Tied inside i s t (mapOutcome f a i s) (mapOutcome f a j t) := by
  unfold mapOutcome
  revert h
  generalize a i s = x, a j t = y
  rintro (fault | ⟨outcome, count, ends⟩)
  · exact .fault fault
  · exact .answer _ count ends

private theorem tied_atomic (habreast : Abreast known i j s t)
    (h : Tied inside i s t (a i s) (a j t)) :
    Tied inside i s t (atomic a i s) (atomic a j t) := by
  unfold atomic
  revert h
  generalize a i s = x, a j t = y
  rintro (fault | ⟨found | failure | failure, count, ends⟩)
  · exact .fault fault
  · exact .answer _ count ends
  · exact .stay habreast _
  · exact .stay habreast _

/-- The second part may know of what the first has passed, and may be the last to look ahead. -/
theorem tied_seq {known' : Prop} (habreast : Abreast known i j s t)
    (h : Tied True i s t (a i s) (a j t))
    (hknown : known' → known ∨ ∀ found s', a i s = .ok (.ok found, s') → s.position < s'.position)
    (h' : ∀ s t, Abreast known' i j s t → Tied inside i s t (b i s) (b j t)) :
    Tied inside i s t (seq a b i s) (seq a b j t) := by
  refine tied_atomic habreast (tied_bind habreast h hknown fun found s t habreast ↦ ?_)
  have hb := h' s t habreast
  unfold bind
  revert hb
  generalize b i s = x, b j t = y
  rintro (fault | ⟨other | failure | failure, count, ends⟩)
  · exact .fault fault
  · exact .answer _ count ends
  · exact .answer _ count ends
  · exact .answer _ count ends

private theorem prospective_map (f : Outcome α → Outcome β) (h : a.Prospective known i j) :
    (mapOutcome f a).Prospective known i j :=
  fun s t habreast ↦ tied_mapOutcome f (h s t habreast)

private theorem prospective_check (verdict : α → Outcome β) (h : a.Prospective known i j) :
    (check a verdict).Prospective known i j :=
  fun s t habreast ↦ tied_atomic habreast (tied_bind habreast (h s t habreast) .inl
    fun _ _ _ habreast ↦ .stay habreast _)

private theorem prospective_optional (h : a.Prospective known i j) :
    (optional a).Prospective known i j := by
  intro s t habreast
  have ha := h s t habreast
  unfold optional
  revert ha
  generalize a i s = x, a j t = y
  rintro (fault | ⟨found | failure | failure, count, ends⟩)
  · exact .fault fault
  · exact .answer _ count ends
  · exact .stay habreast _
  · exact .answer _ count ends

private theorem prospective_orElse {b : Step α} (h : a.Prospective known i j)
    (h' : b.Prospective known i j) : (orElse a b).Prospective known i j := by
  intro s t habreast
  have ha := h s t habreast
  unfold orElse
  revert ha
  generalize a i s = x, a j t = y
  rintro (fault | ⟨found | failure | failure, count, ends⟩)
  · exact .fault fault
  · exact .answer _ count ends
  · exact h' s t habreast
  · exact .answer _ count ends

private theorem prospective_repeated (h : a.Prospective known i j) (allowed : Nat) :
    (repeated a allowed).Prospective known i j := by
  induction allowed with
  | zero => exact fun _ _ _ ↦ .fault _
  | succ allowed ih =>
    intro s t habreast
    have ha := h s t habreast
    unfold repeated
    revert ha
    generalize a i s = x, a j t = y
    rintro (fault | ⟨item | failure | failure, count, ends⟩)
    · exact .fault fault
    · simp only [State.position_moveTo, Nat.add_eq_left]
      split
      · exact .answer _ count ends
      · exact (tied_mapOutcome _ (ih _ _ (habreast.moved_of_known (ends trivial)))).rebase
    · exact .stay habreast _
    · exact .answer _ count ends

private theorem prospective_many (h : a.Prospective known i j) :
    (many a).Prospective known i j := by
  intro s t habreast
  have hattempts := habreast.attempts_add 0
  unfold many
  rw [Nat.add_zero, Nat.add_zero] at hattempts
  rw [hattempts]
  exact prospective_repeated h _ s t habreast

private theorem prospective_many1 (h : a.Prospective known i j) :
    (many1 a).Prospective known i j := by
  intro s t habreast
  refine tied_atomic habreast (tied_bind habreast (prospective_many h s t habreast) .inl
    fun items s t habreast ↦ ?_)
  split
  · exact tied_fail habreast _
  · exact .stay habreast _

private theorem prospective_nonEmpty (what : String) {a : Step (List α)}
    (h : a.Prospective known i j) :
    (nonEmpty what a).Prospective known i j := by
  intro s t habreast
  refine tied_bind habreast (h s t habreast) .inl fun items s t habreast ↦ ?_
  rw [← habreast.lineEnds, ← habreast.tokenAt_add habreast.ends.lineEnds]
  split
  · exact .stay habreast _
  · exact .stay habreast _

private theorem prospective_line (h : a.Prospective known i j) : (line a).Prospective known i j :=
  fun s t habreast ↦ tied_mapOutcome _ (tied_seq habreast (h s t habreast) .inl
    (prospective_many (prospective_token (by decide))))

private theorem prospective_aligned (column : Nat) (locate : α → Location)
    (h : a.Prospective known i j)
    (allowed : Nat) : (aligned column locate a allowed).Prospective known i j := by
  induction allowed with
  | zero => exact fun _ _ _ ↦ .fault _
  | succ allowed ih =>
    intro s t habreast
    have ha := h s t habreast
    unfold aligned
    rw [← habreast.current]
    split
    · exact .stay habreast _
    · revert ha
      generalize a i s = x, a j t = y
      rintro (fault | ⟨item | failure | failure, count, ends⟩)
      · exact .fault fault
      · dsimp only
        split
        · exact .stay habreast _
        · exact (tied_mapOutcome _ (ih _ _ (habreast.moved_of_known (ends trivial)))).rebase
      · exact .stay habreast _
      · exact .answer _ count ends

private theorem prospective_block (locate : α → Location) (h : a.Prospective known i j) :
    (block locate a).Prospective known i j := by
  intro s t habreast
  have hends := habreast.ends.lineEnds
  unfold block
  dsimp only
  rw [← habreast.lineEnds, ← habreast.tokenAt_add hends, ← habreast.attempts_add, ← habreast.indent]
  split
  · exact .stay habreast _
  · split
    · exact .stay habreast _
    · next column _ =>
      split
      · exact .stay habreast _
      · have hlines := prospective_aligned column locate (prospective_line h)
          (i.attempts (s.position + i.lineEnds s.position)) _ _
          ((habreast.moved_of_known hends).opened column)
        revert hlines
        generalize aligned column locate (line a) _ i _ = x,
          aligned column locate (line a) _ j _ = y
        -- The block is closed again on both sides, and the lines began behind the line ends.
        rintro (fault | ⟨⟨_ | ⟨item, items⟩⟩ | failure | failure, count, ends⟩)
        · exact .fault fault
        · exact .stay habreast _
        all_goals exact Tied.rebase (s := s) (t := t) (.answer _ count ends)

end Step

/-! ### Parsers -/

namespace Parser

/-- The parser asks whether a line has ended just behind only where this is `known`: behind what it
has consumed itself, or everywhere. -/
def LooksAhead (sure : Rule → Prop) : {α : Type} → Parser α → (known : Prop) → Prop
  | _, endOfStatement, known => known
  | _, sameLine inner, known => known ∧ inner.LooksAhead sure known
  | _, seq first second, known =>
    first.LooksAhead sure known ∧ second.LooksAhead sure (known ∨ first.Consumes sure)
  | _, orElse first second, known => first.LooksAhead sure known ∧ second.LooksAhead sure known
  | _, onKind choices, known => ∀ kind, (choices kind).LooksAhead sure known
  | _, inBlockColumn inner, known | _, map _ inner, known | _, check _ inner, known
  | _, commit inner, known | _, commitAs _ inner, known | _, optional inner, known
  | _, many inner, known | _, many1 inner, known | _, block _ inner, known
  | _, nonEmpty _ inner, known => inner.LooksAhead sure known
  | _, _, _ => True

variable {tokens tokens' : Array Token} {call : (rule : Rule) → Step rule.Result}
  {rules : Nat → (rule : Rule) → Nat → Nat → rule.Result → Prop} {sure : Rule → Prop}

/-- A parser that stays inside the input and looks ahead goes by what lies ahead, if the rules that
it asks for do. -/
theorem run_prospective
    (hagrees : ∀ rule, Step.Agrees tokens false (fun _ ↦ True) (call rule) (call rule))
    (hrules : ∀ rule s found s', call rule ⟨tokens, false⟩ s = .ok (.ok found, s') →
      rules s.indent rule s.position s'.position found)
    (hwithin : ∀ {indent rule p q found}, rules indent rule p q found →
      Input.Within ⟨tokens, false⟩ p q)
    (hsure : ∀ {indent rule p q found}, sure rule → rules indent rule p q found → p < q)
    (hcall : ∀ rule, sure rule →
      (call rule).Prospective False ⟨tokens, false⟩ ⟨tokens', false⟩)
    {parser : Parser α} (hinside : parser.StaysInside sure) {known : Prop}
    (hahead : parser.LooksAhead sure known) :
    (parser.run call).Prospective known ⟨tokens, false⟩ ⟨tokens', false⟩ := by
  induction parser generalizing known with
  | succeed value => exact Step.prospective_succeed value
  | fail problem => exact fun s t habreast ↦ Step.tied_fail habreast problem
  | here => exact Step.prospective_here
  | token kind => exact Step.prospective_token hinside
  | value kind read => exact Step.prospective_value hinside read
  | endOfStatement => exact Step.prospective_endOfStatement hahead
  | rule rule => exact (hcall rule hinside).mono False.elim
  | sameLine inner ih => exact Step.prospective_sameLine hahead.1 (ih hinside hahead.2)
  | inBlockColumn inner ih => exact Step.prospective_inBlockColumn (ih hinside hahead)
  | onKind choices ih =>
    exact Step.prospective_onKind fun kind ↦ ih kind (hinside kind) (hahead kind)
  | seq first second ih ih' =>
    intro s t habreast
    refine Step.tied_seq habreast (ih hinside.1 hahead.1 s t habreast) (fun hknown ↦ ?_)
      (ih' hinside.2 hahead.2)
    refine hknown.imp id fun hconsumes found s' hfound ↦ ?_
    exact (first.accepts_of_run hagrees hrules hfound).lt hwithin hsure hconsumes
  | map f inner ih => exact Step.prospective_map _ (ih hinside hahead)
  | check verdict inner ih => exact Step.prospective_check verdict (ih hinside hahead)
  | commit inner ih => exact Step.prospective_map _ (ih hinside hahead)
  | commitAs problem inner ih => exact Step.prospective_map _ (ih hinside hahead)
  | optional inner ih => exact Step.prospective_optional (ih hinside hahead)
  | many inner ih => exact Step.prospective_many (ih hinside hahead)
  | many1 inner ih => exact Step.prospective_many1 (ih hinside hahead)
  | orElse first second ih ih' =>
    exact Step.prospective_orElse (ih hinside.1 hahead.1) (ih' hinside.2 hahead.2)
  | block locate item ih => exact Step.prospective_block locate (ih hinside hahead)
  | nonEmpty what inner ih => exact Step.prospective_nonEmpty what (ih hinside hahead)

end Parser

end Offside.Packrat
