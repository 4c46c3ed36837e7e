import Offside.Proofs.Packrat.Agreement

/-!
# What a success has read

`Parser.Accepts` reads a parser as a relation between a range of positions and a value: how the
parts of the range make up the value, without the order in which alternatives are tried. Whatever
a run answers with success is accepted (`Parser.accepts_of_run`), so laws of successes are shown
by looking at parsers alone.
-/

namespace Offside.Packrat

variable {α β : Type}

/-- Items one behind the other from a position to a position. -/
inductive Row (Item : Nat → Nat → α → Prop) : Nat → Nat → List α → Prop where
  | nil (position : Nat) : Row Item position position []
  | cons {start middle stop : Nat} {item : α} {items : List α} :
      Item start middle item → Row Item middle stop items → Row Item start stop (item :: items)

namespace Row

variable {Item Other : Nat → Nat → α → Prop} {start stop : Nat} {items : List α}

/-- A row of items is a row of whatever each of them is. -/
theorem imp (himp : ∀ {p q item}, Item p q item → Other p q item) (h : Row Item start stop items) :
    Row Other start stop items := by
  induction h with
  | nil position => exact .nil position
  | cons hitem _ ih => exact .cons (himp hitem) ih

/-- Each item of a row takes some part of it. -/
theorem exists_of_mem (h : Row Item start stop items) {item : α} (hmem : item ∈ items) :
    ∃ p q, Item p q item := by
  induction h with
  | nil => cases hmem
  | cons hitem _ ih =>
    obtain rfl | hmem := List.mem_cons.1 hmem
    · exact ⟨_, _, hitem⟩
    · exact ih hmem

end Row

namespace Input

/-- The position behind the token at a position; the end of the tokens is never passed. -/
def after (input : Input) (position : Nat) : Nat :=
  if position < input.tokens.size then position + 1 else position

/-- The token before a position ends a line. -/
def EndsLineBefore (input : Input) (position : Nat) : Prop :=
  ∃ before token, position = before + 1 ∧ input.tokens[before]? = some token ∧
    token.kind = .endOfLine

end Input

/-- Advancing leads behind the token. -/
theorem State.advance_eq (state : State) (input : Input) :
    state.advance input = state.moveTo (input.after state.position) := by
  unfold State.advance Input.after
  split <;> rfl

/-- What a state says about the token behind it depends on the position alone. -/
theorem State.isBehindLineEnd_iff (state : State) (input : Input) :
    state.isBehindLineEnd input = true ↔ input.EndsLineBefore state.position := by
  unfold State.isBehindLineEnd State.previous? Input.EndsLineBefore
  cases state.position with
  | zero => simp
  | succ position =>
    cases hat : input.tokens[position]? with
    | none => simp [hat]
    | some token => simp [hat]

/-- The ranges of positions that a parser may read as a value when the innermost block stands in
the column `indent`, given those of the rules. -/
def Parser.Accepts (input : Input)
    (rules : Nat → (rule : Rule) → Nat → Nat → rule.Result → Prop) :
    {α : Type} → Parser α → (indent start stop : Nat) → α → Prop
  | _, .succeed result, _, start, stop, found => stop = start ∧ found = result
  | _, .fail _, _, _, _, _ => False
  | _, .here, _, start, stop, found => stop = start ∧ found = (input.tokenAt start).location
  | _, .token kind, _, start, stop, found =>
    found.kind = kind ∧ found = input.tokenAt start ∧ stop = input.after start
  | _, .value kind read, _, start, stop, found =>
    (input.tokenAt start).kind = kind ∧ read (input.tokenAt start).payload = some found.1 ∧
      found.2 = (input.tokenAt start).location ∧ stop = input.after start
  | _, .endOfStatement, _, start, stop, _ =>
    ((input.tokenAt start).kind = .endOfLine ∧ stop = input.after start) ∨
      (input.EndsLineBefore start ∧ stop = start)
  | _, .rule name, indent, start, stop, found => rules indent name start stop found
  | _, .sameLine inner, indent, start, stop, found =>
    ¬ input.EndsLineBefore start ∧ inner.Accepts input rules indent start stop found
  | _, .inBlockColumn inner, indent, start, stop, found =>
    (input.tokenAt start).location.column? = some indent ∧
      inner.Accepts input rules indent start stop found
  | _, .onKind choices, indent, start, stop, found =>
    (choices (input.tokenAt start).kind).Accepts input rules indent start stop found
  | _, .seq first second, indent, start, stop, found =>
    ∃ middle, first.Accepts input rules indent start middle found.1 ∧
      second.Accepts input rules indent middle stop found.2
  | _, .map f inner, indent, start, stop, found =>
    ∃ result, inner.Accepts input rules indent start stop result ∧ found = f result
  | _, .check verdict inner, indent, start, stop, found =>
    ∃ result, inner.Accepts input rules indent start stop result ∧ verdict result = .ok found
  | _, .commit inner, indent, start, stop, found =>
    inner.Accepts input rules indent start stop found
  | _, .commitAs _ inner, indent, start, stop, found =>
    inner.Accepts input rules indent start stop found
  | _, .optional inner, indent, start, stop, found =>
    (found = none ∧ stop = start) ∨
      ∃ result, found = some result ∧ inner.Accepts input rules indent start stop result
  | _, .many inner, indent, start, stop, found =>
    Row (inner.Accepts input rules indent) start stop found
  | _, .many1 inner, indent, start, stop, found =>
    found ≠ [] ∧ Row (inner.Accepts input rules indent) start stop found
  | _, .orElse first second, indent, start, stop, found =>
    first.Accepts input rules indent start stop found ∨
      second.Accepts input rules indent start stop found
  | _, .block locate item, indent, start, stop, found =>
    (found = [] ∧ stop = start) ∨
      ∃ column, indent < column ∧
        Row (fun p q result ↦ (input.tokenAt p).location.column? = some column ∧
            (locate result).isGenerated = false ∧
            ∃ m ends, item.Accepts input rules column p m result ∧
              Row (fun p q (found : Token) ↦ found.kind = .endOfLine ∧ found = input.tokenAt p ∧
                q = input.after p) m q ends)
          (start + input.lineEnds start) stop found
  | _, .nonEmpty _ inner, indent, start, stop, found =>
    found ≠ [] ∧ inner.Accepts input rules indent start stop found

/-- What is accepted stays accepted if the rules accept more. -/
theorem Parser.Accepts.imp {input : Input}
    {rules rules' : Nat → (rule : Rule) → Nat → Nat → rule.Result → Prop}
    (himp : ∀ {indent rule p q found}, rules indent rule p q found → rules' indent rule p q found)
    {parser : Parser α} {indent p q : Nat} {found : α}
    (h : parser.Accepts input rules indent p q found) :
    parser.Accepts input rules' indent p q found := by
  induction parser generalizing indent p q with
  | succeed | fail | here | token | value | endOfStatement => exact h
  | rule rule => exact himp h
  | sameLine _ ih | inBlockColumn _ ih | nonEmpty _ _ ih => exact ⟨h.1, ih h.2⟩
  | onKind _ ih => exact ih _ h
  | seq _ _ ih ih' =>
    obtain ⟨middle, hfirst, hsecond⟩ := h
    exact ⟨middle, ih hfirst, ih' hsecond⟩
  | map _ _ ih | check _ _ ih =>
    obtain ⟨result, hresult, hfound⟩ := h
    exact ⟨result, ih hresult, hfound⟩
  | commit _ ih | commitAs _ _ ih => exact ih h
  | optional _ ih =>
    obtain hnone | ⟨result, hfound, hresult⟩ := h
    · exact .inl hnone
    · exact .inr ⟨result, hfound, ih hresult⟩
  | many _ ih => exact Row.imp ih h
  | many1 _ ih => exact ⟨h.1, h.2.imp ih⟩
  | orElse _ _ ih ih' => exact Or.imp ih ih' h
  | block _ _ ih =>
    obtain hnone | ⟨column, hcolumn, hrow⟩ := h
    · exact .inl hnone
    · refine .inr ⟨column, hcolumn, hrow.imp fun hline ↦ ?_⟩
      obtain ⟨hat, hlocated, m, ends, hitem, hends⟩ := hline
      exact ⟨hat, hlocated, m, ends, ih hitem, hends⟩

section Lists

variable {input : Input} {rules : Nat → (rule : Rule) → Nat → Nat → rule.Result → Prop}
  {item : Parser α} {indent start stop : Nat}

/-- Each of the items between commas is accepted somewhere. -/
theorem Parser.exists_of_commaSeparated {found : List α}
    (h : (Parser.commaSeparated item).Accepts input rules indent start stop found) {result : α}
    (hmem : result ∈ found) : ∃ p q, item.Accepts input rules indent p q result := by
  obtain ⟨⟨first, rest⟩, ⟨_, hfirst, hrest⟩, rfl⟩ := h
  obtain rfl | hmem := List.mem_cons.1 hmem
  · exact ⟨_, _, hfirst⟩
  · obtain ⟨_, _, ⟨_, result⟩, ⟨_, -, hresult⟩, rfl⟩ := Row.exists_of_mem hrest hmem
    exact ⟨_, _, hresult⟩

/-- So is each of the items between commas that may be missing. -/
theorem Parser.exists_of_listed {found : Option (List α)}
    (h : (Parser.optional (.commaSeparated item)).Accepts input rules indent start stop found)
    {result : α} (hmem : result ∈ found.getD []) :
    ∃ p q, item.Accepts input rules indent p q result := by
  obtain ⟨rfl, -⟩ | ⟨results, rfl, h⟩ := h
  · cases hmem
  · exact exists_of_commaSeparated h hmem

end Lists

namespace Step

variable {input : Input} {s s' : State} {a : Step α} {b : Step β}

/-! ### When a combination succeeds -/

/-- A step and the next on its value succeed if both do. -/
theorem bind_eq_ok {next : α → Step β} {found : β} :
    bind a next input s = .ok (.ok found, s') ↔
      ∃ result m, a input s = .ok (.ok result, m) ∧ next result input m = .ok (.ok found, s') := by
  unfold bind
  rcases a input s with fault | ⟨result | failure | failure, m⟩
  · simp
  · constructor
    · exact fun h ↦ ⟨result, m, rfl, h⟩
    · rintro ⟨_, _, h, hn⟩
      cases h
      exact hn
  · simp
  · simp

/-- A function of what is read succeeds where the step does. -/
theorem map_eq_ok {f : α → β} {found : β} :
    mapOutcome (.map f) a input s = .ok (.ok found, s') ↔
      ∃ result, a input s = .ok (.ok result, s') ∧ found = f result := by
  unfold mapOutcome
  rcases a input s with fault | ⟨result | failure | failure, m⟩
  · simp
  · constructor
    · intro h
      cases h
      exact ⟨result, rfl, rfl⟩
    · rintro ⟨_, h, rfl⟩
      cases h
      rfl
  · simp [Outcome.map]
  · simp [Outcome.map]

/-- A committed step succeeds where the step does. -/
theorem commit_eq_ok {found : α} :
    mapOutcome .commit a input s = .ok (.ok found, s') ↔ a input s = .ok (.ok found, s') := by
  unfold mapOutcome
  rcases a input s with fault | ⟨result | failure | failure, m⟩ <;> simp [Outcome.commit]

/-- A step that is committed with a cause of its own succeeds where the step does. -/
theorem commitAs_eq_ok {problem : Problem} {found : α} :
    mapOutcome (.commitAs problem) a input s = .ok (.ok found, s') ↔
      a input s = .ok (.ok found, s') := by
  unfold mapOutcome
  rcases a input s with fault | ⟨result | failure | failure, m⟩ <;> simp [Outcome.commitAs]

/-- A step that is put back when it fails succeeds where the step does. -/
theorem atomic_eq_ok {found : α} :
    atomic a input s = .ok (.ok found, s') ↔ a input s = .ok (.ok found, s') := by
  unfold atomic
  rcases a input s with fault | ⟨result | failure | failure, m⟩ <;> simp

/-- Two steps in order succeed if the second does where the first ends. -/
theorem seq_eq_ok {found : α × β} :
    seq a b input s = .ok (.ok found, s') ↔
      ∃ m, a input s = .ok (.ok found.1, m) ∧ b input m = .ok (.ok found.2, s') := by
  obtain ⟨first, second⟩ := found
  simp only [seq, atomic_eq_ok, bind_eq_ok, succeed, Except.ok.injEq, Prod.mk.injEq,
    Outcome.ok.injEq]
  constructor
  · rintro ⟨x, m, ha, y, m', hb, ⟨rfl, rfl⟩, rfl⟩
    exact ⟨m, ha, hb⟩
  · rintro ⟨m, ha, hb⟩
    exact ⟨first, m, ha, second, s', hb, ⟨rfl, rfl⟩, rfl⟩

private theorem check_eq_ok {verdict : α → Outcome β} {found : β} :
    check a verdict input s = .ok (.ok found, s') ↔
      ∃ result, a input s = .ok (.ok result, s') ∧ verdict result = .ok found := by
  simp only [check, atomic_eq_ok, bind_eq_ok, Except.ok.injEq, Prod.mk.injEq]
  constructor
  · rintro ⟨result, m, ha, hv, rfl⟩
    exact ⟨result, ha, hv⟩
  · rintro ⟨result, ha, hv⟩
    exact ⟨result, s', ha, hv, rfl⟩

/-- A failing step does not succeed. -/
theorem fail_ne_ok {problem : Terminal → Problem} {found : α} :
    fail problem input s ≠ .ok (.ok found, s') := by
  simp [fail, failAt]

/-- A token is read if it is of the kind, and passed. -/
theorem token_eq_ok {kind : TokenKind} {found : Token} :
    token kind input s = .ok (.ok found, s') ↔
      found.kind = kind ∧ found = input.tokenAt s.position ∧
        s' = s.moveTo (input.after s.position) := by
  unfold token
  simp only [State.advance_eq]
  by_cases h : (s.current input).kind = kind
  · simp only [h, if_true, Except.ok.injEq, Prod.mk.injEq, Outcome.ok.injEq]
    constructor
    · rintro ⟨rfl, rfl⟩
      exact ⟨h, rfl, rfl⟩
    · rintro ⟨-, rfl, rfl⟩
      exact ⟨rfl, rfl⟩
  · simp only [h, if_false, fail_ne_ok, false_iff]
    rintro ⟨hk, rfl, -⟩
    exact h hk

/-- A value is read from a token of the kind that carries one. -/
theorem value_eq_ok {kind : TokenKind} {read : Payload → Option α} {found : α × Location} :
    value kind read input s = .ok (.ok found, s') ↔
      (input.tokenAt s.position).kind = kind ∧
        read (input.tokenAt s.position).payload = some found.1 ∧
        found.2 = (input.tokenAt s.position).location ∧
        s' = s.moveTo (input.after s.position) := by
  have ht {tok : Token} {m : State} := @token_eq_ok input s m kind tok
  unfold value
  revert ht
  generalize token kind input s = x
  intro ht
  constructor
  · intro h
    split at h
    · cases h
    · next tok m =>
      obtain ⟨hk, rfl, rfl⟩ := ht.1 rfl
      split at h
      · next hr => 
        cases h
        exact ⟨hk, hr, rfl, rfl⟩
      · cases h
    · cases h
    · cases h
  · rintro ⟨hk, hr, hl, rfl⟩
    rw [ht.2 ⟨hk, rfl, rfl⟩]
    dsimp only
    rw [hr]
    simp only [← hl]

private theorem endOfStatement_eq_ok :
    endOfStatement input s = .ok (.ok (), s') ↔
      ((input.tokenAt s.position).kind = .endOfLine ∧ s' = s.moveTo (input.after s.position)) ∨
        ((input.tokenAt s.position).kind ≠ .endOfLine ∧ input.EndsLineBefore s.position ∧
          s' = s) := by
  unfold endOfStatement
  rw [State.advance_eq]
  by_cases hk : (input.tokenAt s.position).kind = .endOfLine
  · rw [State.current, if_pos hk]
    constructor
    · intro h
      cases h
      exact .inl ⟨hk, rfl⟩
    · rintro (⟨-, rfl⟩ | ⟨h, -⟩)
      · rfl
      · exact absurd hk h
  · rw [State.current, if_neg hk, ← State.isBehindLineEnd_iff]
    split
    · next hb =>
      constructor
      · intro h
        cases h
        exact .inr ⟨hk, hb, rfl⟩
      · rintro (⟨h, -⟩ | ⟨-, -, rfl⟩)
        · exact absurd h hk
        · rfl
    · next hb => simp [hk, hb, fail_ne_ok]

private theorem sameLine_eq_ok {found : α} :
    sameLine a input s = .ok (.ok found, s') ↔
      ¬ input.EndsLineBefore s.position ∧ a input s = .ok (.ok found, s') := by
  rw [← State.isBehindLineEnd_iff]
  unfold sameLine
  split <;> simp [*, fail_ne_ok]

private theorem inBlockColumn_eq_ok {found : α} :
    inBlockColumn a input s = .ok (.ok found, s') ↔
      (input.tokenAt s.position).location.column? = some s.indent ∧
        a input s = .ok (.ok found, s') := by
  unfold inBlockColumn State.current
  split <;> simp [*, fail_ne_ok]

/-- An optional step succeeds with the value of the step or, where the step fails recoverably, with
none. -/
theorem optional_eq_ok {found : Option α} :
    optional a input s = .ok (.ok found, s') ↔
      (∃ result, found = some result ∧ a input s = .ok (.ok result, s')) ∨
        ∃ failure m, found = none ∧ a input s = .ok (.recoverable failure, m) ∧
          s' = m.moveTo s.position := by
  unfold optional
  rcases a input s with fault | ⟨result | failure | failure, m⟩
  · simp
  · constructor
    · intro h
      cases h
      exact .inl ⟨result, rfl, rfl⟩
    · rintro (⟨_, rfl, h⟩ | ⟨_, _, _, h, _⟩)
      · cases h
        rfl
      · cases h
  · constructor
    · intro h
      cases h
      exact .inr ⟨failure, m, rfl, rfl, rfl⟩
    · rintro (⟨_, _, h⟩ | ⟨_, _, rfl, h, rfl⟩)
      · cases h
      · cases h
        rfl
  · simp

/-- Of two alternatives the second succeeds only where the first fails recoverably. -/
theorem orElse_eq_ok {b : Step α} {found : α} :
    orElse a b input s = .ok (.ok found, s') ↔
      a input s = .ok (.ok found, s') ∨
        ∃ failure m, a input s = .ok (.recoverable failure, m) ∧
          b input (m.moveTo s.position) = .ok (.ok found, s') := by
  unfold orElse
  rcases a input s with fault | ⟨result | failure | failure, m⟩
  · simp
  · simp
  · constructor
    · exact fun h ↦ .inr ⟨failure, m, rfl, h⟩
    · rintro (h | ⟨_, _, h, hb⟩)
      · cases h
      · cases h
        exact hb
  · simp

/-- A step whose items are wanted succeeds with at least one. -/
theorem nonEmpty_eq_ok {what : String} {a : Step (List α)} {found : List α} :
    nonEmpty what a input s = .ok (.ok found, s') ↔
      found ≠ [] ∧ a input s = .ok (.ok found, s') := by
  unfold nonEmpty
  rw [bind_eq_ok]
  constructor
  · rintro ⟨items, m, ha, h⟩
    cases items with
    | nil => simp [failAt] at h
    | cons item items =>
      cases h
      exact ⟨List.cons_ne_nil _ _, ha⟩
  · rintro ⟨hne, ha⟩
    cases found with
    | nil => exact absurd rfl hne
    | cons item items => exact ⟨_, _, ha, rfl⟩

/-- The step leaves the columns of the open blocks as they are. -/
def KeepsBlocks (input : Input) (step : Step α) : Prop :=
  ∀ s outcome s', step input s = .ok (outcome, s') → s'.blocks = s.blocks

private theorem indent_eq {s s' : State} (h : s'.blocks = s.blocks) : s'.indent = s.indent := by
  rw [State.indent, State.indent, h]

section Rows

variable {Item : Nat → Nat → α → Prop} {indent : Nat}

private theorem row_of_repeated (hkeeps : a.KeepsBlocks input)
    (hitem : ∀ m found m', m.indent = indent → a input m = .ok (.ok found, m') →
      Item m.position m'.position found)
    {allowed : Nat} {items : List α} (hs : s.indent = indent)
    (h : repeated a allowed input s = .ok (.ok items, s')) :
    Row Item s.position s'.position items := by
  induction allowed generalizing s items with
  | zero => simp [repeated] at h
  | succ allowed ih =>
    unfold repeated at h
    split at h
    · cases h
    · cases h
      exact .nil _
    · cases h
    · next item m ha =>
      have hm := hitem _ _ _ hs ha
      split at h
      · cases h
        exact .cons hm (.nil _)
      · obtain ⟨rest, hr, rfl⟩ := map_eq_ok.1 h
        exact .cons hm (ih ((indent_eq (hkeeps _ _ _ ha)).trans hs) hr)

/-- The successes of a step in a row are rows of its items. -/
theorem row_of_many (hkeeps : a.KeepsBlocks input)
    (hitem : ∀ m found m', m.indent = indent → a input m = .ok (.ok found, m') →
      Item m.position m'.position found)
    {items : List α} (hs : s.indent = indent) (h : many a input s = .ok (.ok items, s')) :
    Row Item s.position s'.position items :=
  row_of_repeated hkeeps hitem hs h

private theorem row_of_many1 (hkeeps : a.KeepsBlocks input)
    (hitem : ∀ m found m', m.indent = indent → a input m = .ok (.ok found, m') →
      Item m.position m'.position found)
    {items : List α} (hs : s.indent = indent) (h : many1 a input s = .ok (.ok items, s')) :
    items ≠ [] ∧ Row Item s.position s'.position items := by
  obtain ⟨found, m, hm, hf⟩ := bind_eq_ok.1 (atomic_eq_ok.1 h)
  cases found with
  | nil => exact absurd hf fail_ne_ok
  | cons item rest =>
    cases hf
    exact ⟨List.cons_ne_nil _ _, row_of_many hkeeps hitem hs hm⟩

private theorem row_of_aligned (column : Nat) (locate : α → Location) (hkeeps : a.KeepsBlocks input)
    (hitem : ∀ m found m', m.indent = indent → a input m = .ok (.ok found, m') →
      Item m.position m'.position found)
    {allowed : Nat} {items : List α} (hs : s.indent = indent)
    (h : aligned column locate a allowed input s = .ok (.ok items, s')) :
    Row (fun p q found ↦ (input.tokenAt p).location.column? = some column ∧
      (locate found).isGenerated = false ∧ Item p q found) s.position s'.position items := by
  induction allowed generalizing s items with
  | zero => simp [aligned] at h
  | succ allowed ih =>
    unfold aligned at h
    split at h
    · cases h
      exact .nil _
    · next hc =>
      split at h
      · cases h
      · cases h
        exact .nil _
      · cases h
      · next item m ha =>
        split at h
        · cases h
        · next hg =>
          obtain ⟨rest, hr, rfl⟩ := map_eq_ok.1 h
          exact .cons ⟨Decidable.not_not.1 hc, by simpa using hg, hitem _ _ _ hs ha⟩
            (ih ((indent_eq (hkeeps _ _ _ ha)).trans hs) hr)

end Rows

/-- A step that agrees with itself keeps the open blocks. -/
theorem Agrees.moveTo_eq {tokens : Array Token} (h : Agrees tokens false (fun _ ↦ True) a a)
    {outcome : Outcome α} (hs : a ⟨tokens, false⟩ s = .ok (outcome, s')) :
    s' = s.moveTo s'.position := by
  have hagree := h s s ⟨rfl, rfl, trivial⟩
  rw [hs] at hagree
  exact hagree.of_ok.1

/-- A step that agrees with itself leaves the open blocks as they are. -/
theorem Agrees.keepsBlocks {tokens : Array Token} (h : Agrees tokens false (fun _ ↦ True) a a) :
    a.KeepsBlocks ⟨tokens, false⟩ := by
  intro s outcome s' hs
  rw [h.moveTo_eq hs, State.blocks_moveTo]

/-- A block is empty, or a row of lines in one column that is deeper than the innermost block. -/
theorem row_of_block {tokens : Array Token} {Item : Nat → Nat → Nat → α → Prop}
    (locate : α → Location) (hagrees : Agrees tokens false (fun _ ↦ True) a a)
    (hitem : ∀ m found m', a ⟨tokens, false⟩ m = .ok (.ok found, m') →
      Item m.indent m.position m'.position found)
    {items : List α} (h : block locate a ⟨tokens, false⟩ s = .ok (.ok items, s')) :
    (items = [] ∧ s'.position = s.position) ∨
      ∃ column, s.indent < column ∧
        Row (fun p q found ↦ (Input.tokenAt ⟨tokens, false⟩ p).location.column? = some column ∧
            (locate found).isGenerated = false ∧
            ∃ m ends, Item column p m found ∧
              Row (fun p q (found : Token) ↦ found.kind = .endOfLine ∧
                found = Input.tokenAt ⟨tokens, false⟩ p ∧
                  q = Input.after ⟨tokens, false⟩ p) m q ends)
          (s.position + Input.lineEnds ⟨tokens, false⟩ s.position) s'.position items := by
  have hline : ∀ {indent : Nat} (m : State) found m', m.indent = indent →
      line a ⟨tokens, false⟩ m = .ok (.ok found, m') →
      ∃ k ends, Item indent m.position k found ∧
        Row (fun p q (found : Token) ↦ found.kind = .endOfLine ∧
          found = Input.tokenAt ⟨tokens, false⟩ p ∧ q = Input.after ⟨tokens, false⟩ p) k
          m'.position ends := by
    intro indent m found m' hm hl
    obtain ⟨⟨_, ends⟩, hl, rfl⟩ := map_eq_ok.1 hl
    obtain ⟨k, ha, hends⟩ := seq_eq_ok.1 hl
    refine ⟨k.position, ends, hm ▸ hitem _ _ _ ha, ?_⟩
    refine row_of_many (agrees_token .endOfLine).keepsBlocks ?_ rfl hends
    intro p tok p' _ ht
    obtain ⟨hk, hat, rfl⟩ := token_eq_ok.1 ht
    exact ⟨hk, hat, rfl⟩
  unfold block at h
  dsimp only at h
  split at h
  · simp [failAt] at h
  · split at h
    · cases h
    · next column _ =>
      split at h
      · simp [failAt] at h
      · next hlt =>
        split at h
        · cases h
        · cases h
          exact .inl ⟨rfl, rfl⟩
        · next outcome m _ ha =>
          cases h
          exact .inr ⟨column, Nat.lt_of_not_le hlt,
            row_of_aligned column locate (agrees_line hagrees).keepsBlocks hline rfl ha⟩

end Step

/-- What a run answers with success is accepted, if the rules accept what they answer. -/
theorem Parser.accepts_of_run {tokens : Array Token} {call : (rule : Rule) → Step rule.Result}
    {rules : Nat → (rule : Rule) → Nat → Nat → rule.Result → Prop}
    (hagrees : ∀ rule, Step.Agrees tokens false (fun _ ↦ True) (call rule) (call rule))
    (hrules : ∀ rule s found s', call rule ⟨tokens, false⟩ s = .ok (.ok found, s') →
      rules s.indent rule s.position s'.position found)
    (parser : Parser α) {s s' : State} {found : α}
    (h : parser.run call ⟨tokens, false⟩ s = .ok (.ok found, s')) :
    parser.Accepts ⟨tokens, false⟩ rules s.indent s.position s'.position found := by
  induction parser generalizing s s' with
  | succeed value =>
    cases h
    exact ⟨rfl, rfl⟩
  | fail problem => exact absurd h Step.fail_ne_ok
  | here =>
    cases h
    exact ⟨rfl, rfl⟩
  | token kind =>
    obtain ⟨hk, hat, rfl⟩ := Step.token_eq_ok.1 h
    exact ⟨hk, hat, rfl⟩
  | value kind read =>
    obtain ⟨hk, hr, hl, rfl⟩ := Step.value_eq_ok.1 h
    exact ⟨hk, hr, hl, rfl⟩
  | endOfStatement =>
    obtain ⟨hk, rfl⟩ | ⟨_, hb, rfl⟩ := Step.endOfStatement_eq_ok.1 h
    · exact .inl ⟨hk, rfl⟩
    · exact .inr ⟨hb, rfl⟩
  | rule rule => exact hrules rule _ _ _ h
  | sameLine _ ih =>
    obtain ⟨hb, h⟩ := Step.sameLine_eq_ok.1 h
    exact ⟨hb, ih h⟩
  | inBlockColumn _ ih =>
    obtain ⟨hc, h⟩ := Step.inBlockColumn_eq_ok.1 h
    exact ⟨hc, ih h⟩
  | onKind _ ih => exact ih _ h
  | seq first second ih ih' =>
    obtain ⟨m, hfirst, hsecond⟩ := Step.seq_eq_ok.1 h
    have hm := Step.indent_eq ((first.run_agrees hagrees).keepsBlocks _ _ _ hfirst)
    exact ⟨m.position, ih hfirst, hm ▸ ih' hsecond⟩
  | map f _ ih =>
    obtain ⟨result, hr, rfl⟩ := Step.map_eq_ok.1 h
    exact ⟨result, ih hr, rfl⟩
  | check verdict _ ih =>
    obtain ⟨result, h, hv⟩ := Step.check_eq_ok.1 h
    exact ⟨result, ih h, hv⟩
  | commit _ ih => exact ih (Step.commit_eq_ok.1 h)
  | commitAs problem _ ih => exact ih (Step.commitAs_eq_ok.1 h)
  | optional _ ih =>
    obtain ⟨result, rfl, hr⟩ | ⟨failure, m, rfl, _, rfl⟩ := Step.optional_eq_ok.1 h
    · exact .inr ⟨result, rfl, ih hr⟩
    · exact .inl ⟨rfl, rfl⟩
  | many inner ih =>
    exact Step.row_of_many (inner.run_agrees hagrees).keepsBlocks
      (fun m found m' hm hr ↦ hm ▸ ih hr) rfl h
  | many1 inner ih =>
    exact Step.row_of_many1 (inner.run_agrees hagrees).keepsBlocks
      (fun m found m' hm hr ↦ hm ▸ ih hr) rfl h
  | orElse first second ih ih' =>
    obtain h | ⟨failure, m, hfirst, h⟩ := Step.orElse_eq_ok.1 h
    · exact .inl (ih h)
    · have hm := Step.indent_eq ((first.run_agrees hagrees).keepsBlocks _ _ _ hfirst)
      exact .inr (hm ▸ ih' h)
  | block locate item ih =>
    exact Step.row_of_block locate (item.run_agrees hagrees) (fun m found m' hr ↦ ih hr) h
  | nonEmpty what _ ih =>
    obtain ⟨hne, h⟩ := Step.nonEmpty_eq_ok.1 h
    exact ⟨hne, ih h⟩

end Offside.Packrat
