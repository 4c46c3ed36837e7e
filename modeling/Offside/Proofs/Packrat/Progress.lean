import Offside.Proofs.Packrat.Acceptance

/-!
# Progress and termination

No success moves backwards or past the end of the tokens. A parser whose rules at its first
position all run to an end runs to an end itself: a repetition stops at the first success that
consumes nothing, and a line of a block that consumes nothing stands nowhere
(`Parser.run_settles`).
-/

namespace Offside.Packrat

variable {α β : Type}

/-- The second position is not before the first, and not behind the end of the tokens unless the
first is there already. -/
def Input.Within (input : Input) (start stop : Nat) : Prop :=
  start ≤ stop ∧ stop ≤ max start input.tokens.size

namespace Input.Within

variable {input : Input} {p q r : Nat}

/-- A position lies within itself. -/
theorem refl (input : Input) (p : Nat) : input.Within p p := ⟨Nat.le_refl p, Nat.le_max_left ..⟩

/-- Going on twice stays within the tokens. -/
theorem trans (h : input.Within p q) (h' : input.Within q r) : input.Within p r := by
  unfold Input.Within at *
  omega

end Input.Within

/-- One token further is no further than the end of the tokens. -/
theorem Input.within_after (input : Input) (p : Nat) : input.Within p (input.after p) := by
  unfold Input.Within Input.after
  split <;> omega

/-- A token is passed unless it lies behind the end. -/
theorem Input.lt_after_iff (input : Input) (p : Nat) :
    p < input.after p ↔ p < input.tokens.size := by
  unfold Input.after
  split <;> omega

/-- What is read behind the end is located nowhere. -/
theorem Input.isGenerated_tokenAt (input : Input) {p : Nat} (h : input.tokens.size ≤ p) :
    (input.tokenAt p).location.isGenerated = true := by
  rw [Input.tokenAt, Array.getElem?_eq_none h]
  rfl

/-- Line ends are tokens of the input. -/
theorem Input.within_lineEnds (input : Input) (p : Nat) :
    input.Within p (p + input.lineEnds p) := by
  have hle : input.lineEnds p ≤ (input.tokens.toList.drop p).length :=
    (List.takeWhile_sublist _).length_le
  rw [List.length_drop, Array.length_toList] at hle
  unfold Input.Within
  omega

/-- Rows of items that move forwards move forwards. -/
theorem Row.within {input : Input} {Item : Nat → Nat → α → Prop} {p q : Nat} {items : List α}
    (hitem : ∀ {p q item}, Item p q item → input.Within p q) (h : Row Item p q items) :
    input.Within p q := by
  induction h with
  | nil p => exact .refl input p
  | cons h _ ih => exact (hitem h).trans ih

/-- Line ends in a row run forwards. -/
theorem Row.within_lineEnds {input : Input} {p q : Nat} {ends : List Token}
    (h : Row (fun p q (found : Token) ↦ found.kind = .endOfLine ∧ found = input.tokenAt p ∧
      q = input.after p) p q ends) : input.Within p q := by
  refine h.within fun htoken ↦ ?_
  obtain ⟨-, -, rfl⟩ := htoken
  exact input.within_after _

/-- A row that is not empty passes what its first item passes. -/
theorem Row.lt {Item : Nat → Nat → α → Prop} {p q : Nat} {items : List α}
    (hitem : ∀ {p q item}, Item p q item → p < q) (h : Row Item p q items) (hne : items ≠ []) :
    p < q := by
  induction h with
  | nil p => exact absurd rfl hne
  | @cons p m q _ items hm hrest ih =>
    cases hrest with
    | nil => exact hitem hm
    | cons h hrest => exact Nat.lt_trans (hitem hm) (ih (List.cons_ne_nil _ _))

namespace Parser

variable {input : Input} {rules : Nat → (rule : Rule) → Nat → Nat → rule.Result → Prop}

/-- Accepted ranges run forwards if those of the rules do. -/
theorem Accepts.within
    (hrules : ∀ {indent rule p q found}, rules indent rule p q found → input.Within p q)
    {parser : Parser α} {indent p q : Nat} {found : α}
    (h : parser.Accepts input rules indent p q found) : input.Within p q := by
  induction parser generalizing indent p q with
  | succeed value =>
    obtain ⟨rfl, -⟩ := h
    exact .refl input _
  | fail problem => exact h.elim
  | here =>
    obtain ⟨rfl, -⟩ := h
    exact .refl input _
  | token kind =>
    obtain ⟨-, -, rfl⟩ := h
    exact input.within_after p
  | value kind read =>
    obtain ⟨-, -, -, rfl⟩ := h
    exact input.within_after p
  | endOfStatement =>
    obtain ⟨-, rfl⟩ | ⟨-, rfl⟩ := h
    · exact input.within_after p
    · exact .refl input _
  | rule rule => exact hrules h
  | sameLine _ ih => exact ih h.2
  | inBlockColumn _ ih => exact ih h.2
  | onKind _ ih => exact ih _ h
  | seq _ _ ih ih' =>
    obtain ⟨m, hfirst, hsecond⟩ := h
    exact (ih hfirst).trans (ih' hsecond)
  | map f _ ih =>
    obtain ⟨result, hr, -⟩ := h
    exact ih hr
  | check verdict _ ih =>
    obtain ⟨result, hr, -⟩ := h
    exact ih hr
  | commit _ ih => exact ih h
  | commitAs _ _ ih => exact ih h
  | optional _ ih =>
    obtain ⟨-, rfl⟩ | ⟨result, -, hr⟩ := h
    · exact .refl input _
    · exact ih hr
  | many _ ih => exact Row.within ih h
  | many1 _ ih => exact Row.within ih h.2
  | orElse _ _ ih ih' => exact h.elim ih ih'
  | block locate _ ih =>
    obtain ⟨-, rfl⟩ | ⟨column, -, hrow⟩ := h
    · exact .refl input _
    · refine (input.within_lineEnds p).trans (hrow.within fun hitem ↦ ?_)
      obtain ⟨-, -, m, ends, hm, hends⟩ := hitem
      exact (ih hm).trans hends.within_lineEnds
  | nonEmpty _ _ ih => exact ih h.2

/-- A parser of which every success consumes a token, if the `sure` rules are such. -/
def Consumes (sure : Rule → Prop) : {α : Type} → Parser α → Prop
  | _, fail _ => True
  | _, token kind | _, value kind _ => kind ≠ .endOfInput
  | _, rule name => sure name
  | _, seq first second => first.Consumes sure ∨ second.Consumes sure
  | _, orElse first second => first.Consumes sure ∧ second.Consumes sure
  | _, onKind choices => ∀ kind, (choices kind).Consumes sure
  | _, sameLine inner | _, inBlockColumn inner | _, map _ inner | _, check _ inner
  | _, commit inner | _, commitAs _ inner | _, many1 inner => inner.Consumes sure
  | _, _ => False

private theorem lt_after {p : Nat} (h : (input.tokenAt p).kind ≠ .endOfInput) :
    p < input.after p := by
  rw [input.lt_after_iff]
  apply Nat.lt_of_not_le
  intro hle
  rw [Input.tokenAt, Array.getElem?_eq_none hle] at h
  exact h rfl

/-- Accepted ranges of a parser that consumes are not empty. -/
theorem Accepts.lt {sure : Rule → Prop}
    (hrules : ∀ {indent rule p q found}, rules indent rule p q found → input.Within p q)
    (hsure : ∀ {indent rule p q found}, sure rule → rules indent rule p q found → p < q)
    {parser : Parser α} (hconsumes : parser.Consumes sure) {indent p q : Nat} {found : α}
    (h : parser.Accepts input rules indent p q found) : p < q := by
  induction parser generalizing indent p q with
  | fail problem => exact h.elim
  | token kind =>
    obtain ⟨rfl, rfl, rfl⟩ := h
    exact lt_after hconsumes
  | value kind read =>
    obtain ⟨rfl, -, -, rfl⟩ := h
    exact lt_after hconsumes
  | rule rule => exact hsure hconsumes h
  | sameLine _ ih => exact ih hconsumes h.2
  | inBlockColumn _ ih => exact ih hconsumes h.2
  | onKind _ ih => exact ih _ (hconsumes _) h
  | seq _ _ ih ih' =>
    obtain ⟨m, hfirst, hsecond⟩ := h
    obtain hc | hc := hconsumes
    · exact Nat.lt_of_lt_of_le (ih hc hfirst) (hsecond.within hrules).1
    · exact Nat.lt_of_le_of_lt (hfirst.within hrules).1 (ih' hc hsecond)
  | map f _ ih =>
    obtain ⟨result, hr, -⟩ := h
    exact ih hconsumes hr
  | check verdict _ ih =>
    obtain ⟨result, hr, -⟩ := h
    exact ih hconsumes hr
  | commit _ ih => exact ih hconsumes h
  | commitAs _ _ ih => exact ih hconsumes h
  | many1 _ ih => exact h.2.lt (ih hconsumes) h.1
  | orElse _ _ ih ih' => exact h.elim (ih hconsumes.1) (ih' hconsumes.2)
  | succeed | here | endOfStatement | optional | many | block | nonEmpty => exact hconsumes.elim

/-- Only the `low` rules are asked for at the position where the parser starts. -/
def StartsAmong (sure low : Rule → Prop) : {α : Type} → Parser α → Prop
  | _, rule name => low name
  | _, seq first second =>
    first.StartsAmong sure low ∧ (first.Consumes sure ∨ second.StartsAmong sure low)
  | _, onKind choices => ∀ kind, (choices kind).StartsAmong sure low
  | _, orElse first second => first.StartsAmong sure low ∧ second.StartsAmong sure low
  | _, sameLine inner | _, inBlockColumn inner | _, map _ inner | _, check _ inner
  | _, commit inner | _, commitAs _ inner | _, optional inner | _, many inner | _, many1 inner
  | _, block _ inner | _, nonEmpty _ inner => inner.StartsAmong sure low
  | _, _ => True

/-- An item of a block that consumes nothing stands nowhere. -/
def Grounded (input : Input) (rules : Nat → (rule : Rule) → Nat → Nat → rule.Result → Prop) :
    {α : Type} → Parser α → Prop
  | _, block locate item =>
    item.Grounded input rules ∧ ∀ indent p q found, item.Accepts input rules indent p q found →
      (locate found).isGenerated = false → p < q
  | _, seq first second | _, orElse first second =>
    first.Grounded input rules ∧ second.Grounded input rules
  | _, onKind choices => ∀ kind, (choices kind).Grounded input rules
  | _, sameLine inner | _, inBlockColumn inner | _, map _ inner | _, check _ inner
  | _, commit inner | _, commitAs _ inner | _, optional inner | _, many inner | _, many1 inner
  | _, nonEmpty _ inner => inner.Grounded input rules
  | _, _ => True

/-- A block that is not empty passes what its first line passes. -/
theorem Grounded.lt {locate : α → Location} {item : Parser α}
    (hgrounded : (block locate item).Grounded input rules) {indent p q : Nat} {found : List α}
    (h : (block locate item).Accepts input rules indent p q found) (hne : found ≠ []) : p < q := by
  obtain ⟨hnil, -⟩ | ⟨column, -, hrow⟩ := h
  · exact absurd hnil hne
  · refine Nat.lt_of_le_of_lt (input.within_lineEnds p).1 (hrow.lt (fun hline ↦ ?_) hne)
    obtain ⟨-, hlocated, m, ends, hitem, hends⟩ := hline
    exact Nat.lt_of_lt_of_le (hgrounded.2 _ _ _ _ hitem hlocated) hends.within_lineEnds.1

end Parser

/-! ### Runs that end -/

/-- The step stays within its bound on repetitions and nested rules. -/
def Step.Settles (step : Step α) (input : Input) (s : State) : Prop :=
  step input s ≠ .error .exhausted

namespace Step

variable {input : Input} {s : State} {a : Step α} {b : Step β}

private theorem settles_token (kind : TokenKind) : (token kind).Settles input s := by
  simp only [Settles, token, fail, failAt]
  split <;> simp

private theorem settles_value (kind : TokenKind) (read : Payload → Option α) :
    (value kind read).Settles input s := by
  have ht : (token kind).Settles input s := settles_token kind
  unfold Settles at *
  simp only [value]
  split
  · next h => simpa [h] using ht
  · split <;> simp
  · simp
  · simp

private theorem settles_endOfStatement : endOfStatement.Settles input s := by
  simp only [Settles, endOfStatement, fail, failAt]
  split
  · simp
  · split <;> simp

private theorem settles_mapOutcome (f : Outcome α → Outcome β) (h : a.Settles input s) :
    (mapOutcome f a).Settles input s := by
  unfold Settles mapOutcome at *
  split
  · next fault hf => simpa [hf] using h
  · simp

private theorem settles_atomic (h : a.Settles input s) : (atomic a).Settles input s := by
  unfold Settles atomic at *
  split
  · next fault hf => simpa [hf] using h
  · simp
  · simp

private theorem settles_bind {next : α → Step β} (h : a.Settles input s)
    (hnext : ∀ found m, a input s = .ok (.ok found, m) → (next found).Settles input m) :
    (bind a next).Settles input s := by
  unfold Settles bind at *
  split
  · next fault hf => simpa [hf] using h
  · next found m ha => exact hnext found m ha
  · simp
  · simp

private theorem settles_seq (h : a.Settles input s)
    (hb : ∀ found m, a input s = .ok (.ok found, m) → b.Settles input m) :
    (seq a b).Settles input s :=
  settles_atomic (settles_bind h fun found m ha ↦
    settles_bind (hb found m ha) fun _ _ _ ↦ by simp [Settles, succeed])

private theorem settles_optional (h : a.Settles input s) : (optional a).Settles input s := by
  unfold Settles optional at *
  split
  · next fault hf => simpa [hf] using h
  · simp
  · simp
  · simp

private theorem settles_orElse {b : Step α} (h : a.Settles input s)
    (hb : ∀ m : State, m.position = s.position → b.Settles input m) :
    (orElse a b).Settles input s := by
  unfold Settles orElse at *
  split
  · exact hb _ rfl
  · exact h

/-- A repetition ends, because it stops at a success that consumes nothing. -/
theorem settles_repeated {p : Nat} (h : ∀ m : State, input.Within p m.position → a.Settles input m)
    (hwithin : ∀ m found m', a input m = .ok (.ok found, m') →
      input.Within m.position m'.position)
    {allowed : Nat} (hs : input.Within p s.position)
    (hallowed : input.tokens.size - s.position < allowed) :
    (repeated a allowed).Settles input s := by
  induction allowed generalizing s with
  | zero => omega
  | succ allowed ih =>
    have ha := h s hs
    unfold Settles at ha ⊢
    unfold repeated
    split
    · next fault hf => simpa [hf] using ha
    · simp
    · simp
    · next item m hm =>
      have hforward := hwithin s item m hm
      split
      · simp
      · next hne =>
        refine settles_mapOutcome _ (ih (hs.trans hforward) ?_)
        unfold Input.Within at hforward
        omega

private theorem settles_many {p : Nat}
    (h : ∀ m : State, input.Within p m.position → a.Settles input m)
    (hwithin : ∀ m found m', a input m = .ok (.ok found, m') →
      input.Within m.position m'.position)
    (hs : input.Within p s.position) : (many a).Settles input s :=
  settles_repeated h hwithin hs (Nat.lt_succ_self _)

private theorem settles_lineEnds : (many (token .endOfLine)).Settles input s := by
  refine settles_many (fun m _ ↦ settles_token _) ?_ (.refl input s.position)
  intro m found m' hm
  obtain ⟨-, -, rfl⟩ := token_eq_ok.1 hm
  exact input.within_after _

/-- The lines of a block end, because each of them consumes a token. -/
theorem settles_aligned (column : Nat) (locate : α → Location) {p : Nat}
    (h : ∀ m : State, input.Within p m.position → a.Settles input m)
    (hwithin : ∀ m found m', a input m = .ok (.ok found, m') →
      input.Within m.position m'.position ∧
        ((locate found).isGenerated = false → m.position < m'.position))
    {allowed : Nat} (hs : input.Within p s.position)
    (hallowed : input.tokens.size - s.position < allowed) :
    (aligned column locate a allowed).Settles input s := by
  induction allowed generalizing s with
  | zero => omega
  | succ allowed ih =>
    have ha := h s hs
    unfold Settles at ha ⊢
    unfold aligned
    split
    · simp
    · split
      · next fault hf => simpa [hf] using ha
      · simp
      · simp
      · next item m hm =>
        obtain ⟨hforward, hlt⟩ := hwithin s item m hm
        split
        · simp
        · next hg =>
          refine settles_mapOutcome _ (ih (hs.trans hforward) ?_)
          have := hlt (by simpa using hg)
          unfold Input.Within at hforward
          omega

private theorem within_line {tokens : Array Token} {locate : α → Location}
    (hwithin : ∀ m found m', a ⟨tokens, false⟩ m = .ok (.ok found, m') →
      Input.Within ⟨tokens, false⟩ m.position m'.position ∧
        ((locate found).isGenerated = false → m.position < m'.position))
    {m m' : State} {found : α} (h : line a ⟨tokens, false⟩ m = .ok (.ok found, m')) :
    Input.Within ⟨tokens, false⟩ m.position m'.position ∧
      ((locate found).isGenerated = false → m.position < m'.position) := by
  obtain ⟨⟨_, ends⟩, h, rfl⟩ := map_eq_ok.1 h
  obtain ⟨k, ha, hends⟩ := seq_eq_ok.1 h
  obtain ⟨hk, hlt⟩ := hwithin _ _ _ ha
  have hrow : Row (fun p q _ ↦ Input.Within ⟨tokens, false⟩ p q) _ _ _ := row_of_many
    (agrees_token .endOfLine).keepsBlocks (fun p tok p' _ ht ↦ by
      obtain ⟨-, -, rfl⟩ := token_eq_ok.1 ht
      exact Input.within_after _ _) rfl hends
  have hends := hrow.within id
  exact ⟨hk.trans hends, fun hg ↦ Nat.lt_of_lt_of_le (hlt hg) hends.1⟩

private theorem settles_block {tokens : Array Token} {locate : α → Location}
    (h : ∀ m : State, Input.Within ⟨tokens, false⟩ s.position m.position →
      a.Settles ⟨tokens, false⟩ m)
    (hwithin : ∀ m found m', a ⟨tokens, false⟩ m = .ok (.ok found, m') →
      Input.Within ⟨tokens, false⟩ m.position m'.position ∧
        ((locate found).isGenerated = false → m.position < m'.position)) :
    (block locate a).Settles ⟨tokens, false⟩ s := by
  have hopening := Input.within_lineEnds ⟨tokens, false⟩ s.position
  have hline (m : State) (hm : Input.Within ⟨tokens, false⟩ s.position m.position) :
      (line a).Settles ⟨tokens, false⟩ m :=
    settles_mapOutcome _ (settles_seq (h m hm) fun _ _ _ ↦ settles_lineEnds)
  unfold Settles block
  dsimp only
  split
  · simp [failAt]
  · split
    · simp
    · next column _ =>
      split
      · simp [failAt]
      · split
        · next fault hf =>
          have hsettles : (aligned column locate (line a) _).Settles ⟨tokens, false⟩
              ((s.moveTo _).openBlock column) :=
            settles_aligned column locate hline (fun m found m' ↦ within_line hwithin) hopening
              (Nat.lt_succ_self _)
          unfold Settles at hsettles
          rw [← hf]
          exact hsettles
        · simp
        · simp

end Step

namespace Parser

variable {tokens : Array Token} {call : (rule : Rule) → Step rule.Result}
  {rules : Nat → (rule : Rule) → Nat → Nat → rule.Result → Prop} {sure : Rule → Prop}

/-- Every parser starts among all rules. -/
theorem startsAmong_all (sure : Rule → Prop) (parser : Parser α) :
    parser.StartsAmong sure fun _ ↦ True := by
  induction parser with
  | rule => trivial
  | seq _ _ ih ih' => exact ⟨ih, .inr ih'⟩
  | onKind _ ih => exact ih
  | orElse _ _ ih ih' => exact ⟨ih, ih'⟩
  | sameLine _ ih | inBlockColumn _ ih | map _ _ ih | check _ _ ih | commit _ ih
  | commitAs _ _ ih | optional _ ih | many _ ih | many1 _ ih | block _ _ ih
  | nonEmpty _ _ ih => exact ih
  | succeed | fail | here | token | value | endOfStatement => trivial

/-- The rules that end when called at a position and behind it: some of them at the position, and
all of them further on. -/
structure Ready (tokens : Array Token) (call : (rule : Rule) → Step rule.Result)
    (low : Rule → Prop) (position : Nat) : Prop where
  here : ∀ rule m, low rule → m.position = position → (call rule).Settles ⟨tokens, false⟩ m
  later : ∀ rule (m : State), position < m.position → m.position ≤ tokens.size →
    (call rule).Settles ⟨tokens, false⟩ m

/-- What is reached by consuming tokens may ask for any rule. -/
theorem Ready.further {low : Rule → Prop} {p q : Nat} (h : Ready tokens call low p)
    (hpq : Input.Within ⟨tokens, false⟩ p q) (hne : p ≠ q) :
    Ready tokens call (fun _ ↦ True) q := by
  obtain ⟨hle, hmax⟩ := hpq
  dsimp only at hmax
  exact ⟨fun rule m _ hm ↦ h.later rule m (by omega) (by omega),
    fun rule m hm ↦ h.later rule m (by omega)⟩

/-- A parser that ends wherever the rules do that it starts among ends behind such a position, too:
there it may ask for any rule. -/
theorem settles_within {inner : Parser α}
    (h : ∀ {low : Rule → Prop}, inner.StartsAmong sure low → ∀ {s : State},
      Ready tokens call low s.position → (inner.run call).Settles ⟨tokens, false⟩ s)
    {low : Rule → Prop} (hlow : inner.StartsAmong sure low) {s m : State}
    (hready : Ready tokens call low s.position)
    (hm : Input.Within ⟨tokens, false⟩ s.position m.position) :
    (inner.run call).Settles ⟨tokens, false⟩ m := by
  by_cases heq : s.position = m.position
  · exact h hlow (heq ▸ hready)
  · exact h (inner.startsAmong_all _) (hready.further hm heq)

/-- A parser ends if the rules do that it asks for at its first position, and all rules further
on. -/
theorem run_settles
    (hagrees : ∀ rule, Step.Agrees tokens false (fun _ ↦ True) (call rule) (call rule))
    (hrules : ∀ rule s found s', call rule ⟨tokens, false⟩ s = .ok (.ok found, s') →
      rules s.indent rule s.position s'.position found)
    (hwithin : ∀ {indent rule p q found}, rules indent rule p q found →
      Input.Within ⟨tokens, false⟩ p q)
    (hsure : ∀ {indent rule p q found}, sure rule → rules indent rule p q found → p < q)
    (parser : Parser α) (hgrounded : parser.Grounded ⟨tokens, false⟩ rules)
    {low : Rule → Prop} (hlow : parser.StartsAmong sure low) {s : State}
    (hready : Ready tokens call low s.position) :
    (parser.run call).Settles ⟨tokens, false⟩ s := by
  have hforward {γ : Type} (inner : Parser γ) {m m' : State} {found : γ}
      (h : inner.run call ⟨tokens, false⟩ m = .ok (.ok found, m')) :
      Input.Within ⟨tokens, false⟩ m.position m'.position :=
    (inner.accepts_of_run hagrees hrules h).within hwithin
  induction parser generalizing low s with
  | succeed | here => simp [Step.Settles, run, Step.succeed, Step.here]
  | fail => simp [Step.Settles, run, Step.fail, Step.failAt]
  | token kind => exact Step.settles_token kind
  | value kind read => exact Step.settles_value kind read
  | endOfStatement => exact Step.settles_endOfStatement
  | rule rule => exact hready.here rule s hlow rfl
  | sameLine inner ih =>
    have h := ih hgrounded hlow hready
    unfold Step.Settles at *
    simp only [run, Step.sameLine, Step.fail, Step.failAt]
    split
    · simp
    · exact h
  | inBlockColumn inner ih =>
    have h := ih hgrounded hlow hready
    unfold Step.Settles at *
    simp only [run, Step.inBlockColumn, Step.fail, Step.failAt]
    split
    · exact h
    · simp
  | onKind choices ih => exact ih _ (hgrounded _) (hlow _) hready
  | seq first second ih ih' =>
    refine Step.settles_seq (ih hgrounded.1 hlow.1 hready) fun found m hm ↦ ?_
    -- If the first part consumed nothing, the second starts among the same rules.
    by_cases heq : s.position = m.position
    · obtain hconsumes | hsecond := hlow.2
      · have hlt := (first.accepts_of_run hagrees hrules hm).lt hwithin hsure hconsumes
        exact absurd heq (Nat.ne_of_lt hlt)
      · exact ih' hgrounded.2 hsecond (heq ▸ hready)
    · exact ih' hgrounded.2 (second.startsAmong_all _) (hready.further (hforward first hm) heq)
  | map f inner ih => exact Step.settles_mapOutcome _ (ih hgrounded hlow hready)
  | check verdict inner ih =>
    exact Step.settles_atomic (Step.settles_bind (ih hgrounded hlow hready)
      fun _ _ _ ↦ by simp [Step.Settles])
  | commit inner ih => exact Step.settles_mapOutcome _ (ih hgrounded hlow hready)
  | commitAs problem inner ih => exact Step.settles_mapOutcome _ (ih hgrounded hlow hready)
  | optional inner ih => exact Step.settles_optional (ih hgrounded hlow hready)
  | many inner ih =>
    exact Step.settles_many (fun m hm ↦ settles_within (ih hgrounded) hlow hready hm)
      (fun m found m' ↦ hforward inner) (.refl _ _)
  | many1 inner ih =>
    refine Step.settles_atomic (Step.settles_bind (Step.settles_many
      (fun m hm ↦ settles_within (ih hgrounded) hlow hready hm) (fun m found m' ↦ hforward inner)
      (.refl _ _)) fun found m _ ↦ ?_)
    split
    · simp [Step.Settles, Step.fail, Step.failAt]
    · simp [Step.Settles, Step.succeed]
  | orElse first second ih ih' =>
    exact Step.settles_orElse (ih hgrounded.1 hlow.1 hready)
      fun m hm ↦ ih' hgrounded.2 hlow.2 (hm ▸ hready)
  | block locate item ih =>
    refine Step.settles_block (fun m hm ↦ settles_within (ih hgrounded.1) hlow hready hm) ?_
    intro m found m' hm
    exact ⟨hforward item hm, hgrounded.2 _ _ _ _ (item.accepts_of_run hagrees hrules hm)⟩
  | nonEmpty what inner ih =>
    refine Step.settles_bind (ih hgrounded hlow hready) fun found m _ ↦ ?_
    unfold Step.Settles
    split <;> simp [Step.failAt, Step.succeed]

end Parser

end Offside.Packrat
