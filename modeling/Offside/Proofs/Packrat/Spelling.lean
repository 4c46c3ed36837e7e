import Offside.Proofs.Packrat.Progress
import Offside.Proofs.Packrat.TokenRow

/-!
# What a parser reads as rows of tokens

`Parser.Spells` reads a parser as a relation between rows of tokens and values: what is read one
behind the other is appended, and of what stands before a row only counts whether a line has ended.
The tokens of an accepted range are such a row (`Parser.Accepts.spells`), so that no token of the
range is left out or read twice.
-/

namespace Offside.Packrat

variable {α β : Type}

/-- Items one behind the other, each of which knows whether a line has ended before it. -/
inductive Run (Item : Prop → List Token → α → Prop) : Prop → List Token → List α → Prop where
  | nil (before : Prop) : Run Item before [] []
  | cons {before : Prop} {first rest : List Token} {item : α} {items : List α} :
      Item before first item → Run Item (EndsLineFrom before first) rest items →
        Run Item before (first ++ rest) (item :: items)

/-- An item and the line ends behind it. -/
def LineOf (Item : Prop → List Token → α → Prop) (before : Prop) (tokens : List Token) (item : α) :
    Prop :=
  ∃ front ends, tokens = front ++ ends ∧ Item before front item ∧ LineEnds ends

/-- The rows of tokens that a parser may read as a value, given those of the rules; `before` says
whether a line has ended before the row. -/
def Parser.Spells (forms : (rule : Rule) → List Token → rule.Result → Prop) :
    {α : Type} → Parser α → (before : Prop) → List Token → α → Prop
  | _, .succeed result, _, tokens, found => tokens = [] ∧ found = result
  | _, .fail _, _, _, _ => False
  | _, .here, _, tokens, _ => tokens = []
  | _, .token kind, _, tokens, found => found.kind = kind ∧ tokens = [found]
  | _, .value kind read, _, tokens, found =>
    ∃ token : Token, tokens = [token] ∧ token.kind = kind ∧ read token.payload = some found.1 ∧
      found.2 = token.location
  | _, .endOfStatement, before, tokens, _ =>
    (∃ token : Token, tokens = [token] ∧ token.kind = .endOfLine) ∨ (tokens = [] ∧ before)
  | _, .rule name, _, tokens, found => forms name tokens found
  | _, .sameLine inner, before, tokens, found => ¬ before ∧ inner.Spells forms before tokens found
  | _, .inBlockColumn inner, before, tokens, found => inner.Spells forms before tokens found
  | _, .onKind choices, before, tokens, found =>
    ∃ kind, (choices kind).Spells forms before tokens found
  | _, .seq first second, before, tokens, found =>
    ∃ front back, tokens = front ++ back ∧ first.Spells forms before front found.1 ∧
      second.Spells forms (EndsLineFrom before front) back found.2
  | _, .map f inner, before, tokens, found =>
    ∃ result, inner.Spells forms before tokens result ∧ found = f result
  | _, .check verdict inner, before, tokens, found =>
    ∃ result, inner.Spells forms before tokens result ∧ verdict result = .ok found
  | _, .commit inner, before, tokens, found => inner.Spells forms before tokens found
  | _, .commitAs _ inner, before, tokens, found => inner.Spells forms before tokens found
  | _, .optional inner, before, tokens, found =>
    (found = none ∧ tokens = []) ∨
      ∃ result, found = some result ∧ inner.Spells forms before tokens result
  | _, .many inner, before, tokens, found => Run (inner.Spells forms) before tokens found
  | _, .many1 inner, before, tokens, found =>
    found ≠ [] ∧ Run (inner.Spells forms) before tokens found
  | _, .orElse first second, before, tokens, found =>
    first.Spells forms before tokens found ∨ second.Spells forms before tokens found
  | _, .block _ item, before, tokens, found =>
    (found = [] ∧ tokens = []) ∨
      ∃ ends lines, tokens = ends ++ lines ∧ LineEnds ends ∧
        Run (LineOf (item.Spells forms)) (EndsLineFrom before ends) lines found
  | _, .nonEmpty _ inner, before, tokens, found =>
    found ≠ [] ∧ inner.Spells forms before tokens found

/-- The parser never reads the end of the input, if the rules `inside` do not. -/
def Parser.StaysInside (inside : Rule → Prop) : {α : Type} → Parser α → Prop
  | _, .token kind | _, .value kind _ => kind ≠ .endOfInput
  | _, .rule name => inside name
  | _, .seq first second | _, .orElse first second =>
    first.StaysInside inside ∧ second.StaysInside inside
  | _, .onKind choices => ∀ kind, (choices kind).StaysInside inside
  | _, .sameLine inner | _, .inBlockColumn inner | _, .map _ inner | _, .check _ inner
  | _, .commit inner | _, .commitAs _ inner | _, .optional inner | _, .many inner | _, .many1 inner
  | _, .nonEmpty _ inner | _, .block _ inner => inner.StaysInside inside
  | _, _ => True

/-! ### The tokens of a range -/

namespace Input

/-- The tokens from a position up to another. -/
def segment (input : Input) (start stop : Nat) : List Token :=
  (input.tokens.toList.drop start).take (stop - start)

/-- Between a position and itself there are no tokens. -/
@[simp] theorem segment_self (input : Input) (p : Nat) : input.segment p p = [] := by
  simp [segment]

/-- The tokens between two positions are cut at any position between them. -/
theorem segment_append (input : Input) {p m q : Nat} (h : p ≤ m) (h' : m ≤ q) :
    input.segment p m ++ input.segment m q = input.segment p q := by
  have hq : q - p = (m - p) + (q - m) := by omega
  have hm : m = p + (m - p) := by omega
  unfold segment
  rw [hq, List.take_add, List.drop_drop, ← hm]

/-- Before the end, the tokens that are passed next are the next one. -/
theorem segment_after (input : Input) {p : Nat} (h : p < input.tokens.size) :
    input.segment p (input.after p) = [input.tokenAt p] := by
  have hlist : p < input.tokens.toList.length := by simpa using h
  unfold segment after tokenAt
  rw [if_pos h, Nat.add_sub_cancel_left, List.drop_eq_getElem_cons hlist,
    Array.getElem?_eq_getElem h]
  simp

/-- The first of the tokens between two positions is that at the first position. -/
theorem head?_segment (input : Input) {p q : Nat} (h : p < q) (hp : p < input.tokens.size) :
    (input.segment p q).head? = some (input.tokenAt p) := by
  have hm := (input.lt_after_iff p).2 hp
  have hq : input.after p ≤ q := by
    unfold after
    rw [if_pos hp]
    exact h
  rw [← input.segment_append (Nat.le_of_lt hm) hq, input.segment_after hp]
  rfl

/-- A token is among those between a position before it and one behind it. -/
theorem tokenAt_mem_segment (input : Input) {p q r : Nat} (h : p ≤ r) (h' : r < q)
    (hr : r < input.tokens.size) : input.tokenAt r ∈ input.segment p q := by
  rw [← input.segment_append h (Nat.le_of_lt h')]
  exact List.mem_append_right _ (List.mem_of_head? (input.head?_segment h' hr))

/-- Between two positions before the end there are tokens. -/
theorem segment_ne_nil (input : Input) {p q : Nat} (h : p < q) (hp : p < input.tokens.size) :
    input.segment p q ≠ [] := by
  intro hnil
  have hhead := input.head?_segment h hp
  rw [hnil] at hhead
  cases hhead

/-- A token that does not end the input is one of its tokens. -/
theorem lt_size_of_kind (input : Input) {p : Nat} (h : (input.tokenAt p).kind ≠ .endOfInput) :
    p < input.tokens.size := by
  rw [← Nat.not_le]
  intro hp
  rw [tokenAt, Array.getElem?_eq_none hp] at h
  exact h rfl

/-- The tokens up to the next that ends no line are line ends. -/
theorem lineEnds_segment (input : Input) (p : Nat) :
    LineEnds (input.segment p (p + input.lineEnds p)) := by
  intro token htoken
  unfold segment lineEnds at htoken
  rw [Nat.add_sub_cancel_left,
    ← List.prefix_iff_eq_take.1 (List.takeWhile_prefix _)] at htoken
  simpa using List.all_eq_true.1 List.all_takeWhile token htoken

/-- A line ends before a position if the token before it ends one. -/
theorem endsLineBefore_succ (input : Input) {p : Nat} (h : p < input.tokens.size) :
    input.EndsLineBefore (p + 1) ↔ (input.tokenAt p).kind = .endOfLine := by
  unfold EndsLineBefore tokenAt
  constructor
  · rintro ⟨before, token, hp, htoken, hkind⟩
    rw [Nat.add_right_cancel hp, htoken]
    exact hkind
  · intro hkind
    refine ⟨p, input.tokens[p], rfl, Array.getElem?_eq_getElem h, ?_⟩
    rwa [Array.getElem?_eq_getElem h] at hkind

/-- Whether a line ends before a position shows in the tokens before it. -/
theorem endsLineFrom_segment (input : Input) {p q : Nat} (h : p ≤ q) (hq : q ≤ input.tokens.size) :
    EndsLineFrom (input.EndsLineBefore p) (input.segment p q) = input.EndsLineBefore q := by
  apply propext
  obtain rfl | hlt := Nat.eq_or_lt_of_le h
  · rw [segment_self, endsLineFrom_nil]
  · obtain ⟨k, rfl⟩ := Nat.exists_eq_add_of_lt hlt
    have hk : p + k < input.tokens.size := hq
    have hafter : input.after (p + k) = p + k + 1 := if_pos hk
    have hlast : input.segment (p + k) (p + k + 1) = [input.tokenAt (p + k)] := by
      rw [← hafter, input.segment_after hk]
    rw [← input.segment_append (Nat.le_add_right p k) (Nat.le_add_right (p + k) 1), hlast,
      endsLineFrom_concat, input.endsLineBefore_succ hk]

end Input

/-! ### Accepted ranges -/

section Accepts

variable {input : Input} {rules : Nat → (rule : Rule) → Nat → Nat → rule.Result → Prop}
  {forms : (rule : Rule) → List Token → rule.Result → Prop} {inside : Rule → Prop}

private theorem Row.run {Item : Nat → Nat → α → Prop} {Other : Prop → List Token → α → Prop}
    (hitem : ∀ {p q item}, p ≤ input.tokens.size → Item p q item → input.Within p q ∧
      Other (input.EndsLineBefore p) (input.segment p q) item)
    {p q : Nat} {items : List α} (hp : p ≤ input.tokens.size) (h : Row Item p q items) :
    input.Within p q ∧ Run Other (input.EndsLineBefore p) (input.segment p q) items := by
  induction h with
  | nil p =>
    rw [input.segment_self]
    exact ⟨.refl input p, .nil _⟩
  | @cons p m q _ _ hfirst hrest ih =>
    obtain ⟨hm, hspelled⟩ := hitem hp hfirst
    have hsize : m ≤ input.tokens.size := by
      have := hm.2
      omega
    obtain ⟨hq, hrun⟩ := ih hsize
    refine ⟨hm.trans hq, ?_⟩
    rw [← input.segment_append hm.1 hq.1]
    refine .cons hspelled ?_
    rwa [input.endsLineFrom_segment hm.1 hsize]

private theorem lineEnds_of_row {p q : Nat} {ends : List Token} (hp : p ≤ input.tokens.size)
    (h : Row (fun p q (found : Token) ↦ found.kind = .endOfLine ∧ found = input.tokenAt p ∧
      q = input.after p) p q ends) : LineEnds (input.segment p q) := by
  induction h with
  | nil p =>
    rw [input.segment_self]
    exact List.forall_mem_nil _
  | @cons p m q _ _ hfirst hrest ih =>
    obtain ⟨hkind, rfl, rfl⟩ := hfirst
    have hlt := input.lt_size_of_kind (p := p) (by rw [hkind]; decide)
    have hm := (input.lt_after_iff p).2 hlt
    have hsize := input.within_after p
    have hq := hrest.within_lineEnds
    unfold Input.Within at hsize hq
    rw [← input.segment_append (Nat.le_of_lt hm) hq.1, input.segment_after hlt]
    have hrest := ih (by omega)
    simpa [LineEnds, hkind] using hrest

/-- The tokens of an accepted range are a row that the parser spells. -/
theorem Parser.Accepts.spells
    (hwithin : ∀ {indent rule p q found}, rules indent rule p q found → input.Within p q)
    (hrules : ∀ {indent rule p q found}, inside rule → p ≤ input.tokens.size →
      rules indent rule p q found → forms rule (input.segment p q) found)
    {parser : Parser α} (hinside : parser.StaysInside inside) {indent p q : Nat} {found : α}
    (hp : p ≤ input.tokens.size) (h : parser.Accepts input rules indent p q found) :
    parser.Spells forms (input.EndsLineBefore p) (input.segment p q) found := by
  induction parser generalizing indent p q with
  | succeed result =>
    obtain ⟨rfl, rfl⟩ := h
    exact ⟨input.segment_self _, rfl⟩
  | fail problem => exact h.elim
  | here =>
    obtain ⟨rfl, -⟩ := h
    exact input.segment_self _
  | token kind =>
    obtain ⟨rfl, rfl, rfl⟩ := h
    exact ⟨rfl, input.segment_after (input.lt_size_of_kind hinside)⟩
  | value kind read =>
    obtain ⟨rfl, hread, hlocation, rfl⟩ := h
    exact ⟨_, input.segment_after (input.lt_size_of_kind hinside), rfl, hread, hlocation⟩
  | endOfStatement =>
    obtain ⟨hkind, rfl⟩ | ⟨hbefore, rfl⟩ := h
    · have hlt := input.lt_size_of_kind (p := p) (by rw [hkind]; decide)
      exact .inl ⟨_, input.segment_after hlt, hkind⟩
    · exact .inr ⟨input.segment_self _, hbefore⟩
  | rule rule => exact hrules hinside hp h
  | sameLine inner ih => exact ⟨h.1, ih hinside hp h.2⟩
  | inBlockColumn inner ih => exact ih hinside hp h.2
  | onKind choices ih => exact ⟨_, ih _ (hinside _) hp h⟩
  | seq first second ih ih' =>
    obtain ⟨m, hfirst, hsecond⟩ := h
    have hm := hfirst.within hwithin
    have hq := hsecond.within hwithin
    unfold Input.Within at hm hq
    refine ⟨_, _, (input.segment_append hm.1 hq.1).symm, ih hinside.1 hp hfirst, ?_⟩
    rw [input.endsLineFrom_segment hm.1 (by omega)]
    exact ih' hinside.2 (by omega) hsecond
  | map f inner ih =>
    obtain ⟨result, h, rfl⟩ := h
    exact ⟨result, ih hinside hp h, rfl⟩
  | check verdict inner ih =>
    obtain ⟨result, h, hverdict⟩ := h
    exact ⟨result, ih hinside hp h, hverdict⟩
  | commit inner ih => exact ih hinside hp h
  | commitAs problem inner ih => exact ih hinside hp h
  | optional inner ih =>
    obtain ⟨rfl, rfl⟩ | ⟨result, rfl, h⟩ := h
    · exact .inl ⟨rfl, input.segment_self _⟩
    · exact .inr ⟨result, rfl, ih hinside hp h⟩
  | many inner ih => exact (Row.run (fun hp h ↦ ⟨h.within hwithin, ih hinside hp h⟩) hp h).2
  | many1 inner ih =>
    exact ⟨h.1, (Row.run (fun hp h ↦ ⟨h.within hwithin, ih hinside hp h⟩) hp h.2).2⟩
  | orElse first second ih ih' =>
    obtain h | h := h
    · exact .inl (ih hinside.1 hp h)
    · exact .inr (ih' hinside.2 hp h)
  | block locate item ih =>
    obtain ⟨rfl, rfl⟩ | ⟨column, -, hrow⟩ := h
    · exact .inl ⟨rfl, input.segment_self _⟩
    · have hopening := input.within_lineEnds p
      have hsize : p + input.lineEnds p ≤ input.tokens.size := by
        have := hopening.2
        omega
      have hrun : input.Within (p + input.lineEnds p) q ∧ Run (LineOf (item.Spells forms))
          (input.EndsLineBefore (p + input.lineEnds p))
          (input.segment (p + input.lineEnds p) q) found := by
        refine hrow.run ?_ hsize
        rintro p q item hp ⟨-, -, m, ends, hitem, hends⟩
        have hm := hitem.within hwithin
        have hq := hends.within_lineEnds
        refine ⟨hm.trans hq, _, _, (input.segment_append hm.1 hq.1).symm, ih hinside hp hitem, ?_⟩
        have := hm.2
        exact lineEnds_of_row (by omega) hends
      refine .inr ⟨_, _, (input.segment_append hopening.1 hrun.1.1).symm,
        input.lineEnds_segment p, ?_⟩
      rw [input.endsLineFrom_segment hopening.1 hsize]
      exact hrun.2
  | nonEmpty what inner ih => exact ⟨h.1, ih hinside hp h.2⟩

end Accepts

/-! ### The end of the input -/

/-- None of the tokens ends the input. -/
def EndFree (tokens : List Token) : Prop := ∀ token ∈ tokens, token.kind ≠ .endOfInput

private theorem endFree_nil : EndFree [] := fun _ h ↦ nomatch h

private theorem EndFree.append {first second : List Token} (h : EndFree first)
    (h' : EndFree second) :
    EndFree (first ++ second) := by
  intro token htoken
  exact (List.mem_append.1 htoken).elim (h token) (h' token)

private theorem endFree_singleton {token : Token} (h : token.kind ≠ .endOfInput) :
    EndFree [token] := by
  intro other hother
  rwa [List.mem_singleton.1 hother]

private theorem LineEnds.endFree {tokens : List Token} (h : LineEnds tokens) : EndFree tokens := by
  intro token htoken
  rw [h token htoken]
  decide

private theorem Run.endFree {Item : Prop → List Token → α → Prop}
    (hitem : ∀ {before tokens item}, Item before tokens item → EndFree tokens)
    {before : Prop} {tokens : List Token} {items : List α} (h : Run Item before tokens items) :
    EndFree tokens := by
  induction h with
  | nil => exact endFree_nil
  | cons hfirst _ ih => exact (hitem hfirst).append ih

/-- A parser that stays inside the input spells rows without an end of the input. -/
theorem Parser.Spells.endFree {forms : (rule : Rule) → List Token → rule.Result → Prop}
    {inside : Rule → Prop}
    (hforms : ∀ {rule tokens found}, inside rule → forms rule tokens found → EndFree tokens)
    {parser : Parser α} (hinside : parser.StaysInside inside) {before : Prop} {tokens : List Token}
    {found : α} (h : parser.Spells forms before tokens found) : EndFree tokens := by
  induction parser generalizing before tokens with
  | succeed result =>
    obtain ⟨rfl, -⟩ := h
    exact endFree_nil
  | fail problem => exact h.elim
  | here =>
    cases h
    exact endFree_nil
  | token kind =>
    obtain ⟨rfl, rfl⟩ := h
    exact endFree_singleton hinside
  | value kind read =>
    obtain ⟨token, rfl, rfl, -⟩ := h
    exact endFree_singleton hinside
  | endOfStatement =>
    obtain ⟨token, rfl, hkind⟩ | ⟨rfl, -⟩ := h
    · exact endFree_singleton (by rw [hkind]; decide)
    · exact endFree_nil
  | rule rule => exact hforms hinside h
  | sameLine inner ih => exact ih hinside h.2
  | inBlockColumn inner ih | commit inner ih | commitAs _ inner ih => exact ih hinside h
  | onKind choices ih =>
    obtain ⟨kind, h⟩ := h
    exact ih kind (hinside kind) h
  | seq first second ih ih' =>
    obtain ⟨front, back, rfl, hfirst, hsecond⟩ := h
    exact (ih hinside.1 hfirst).append (ih' hinside.2 hsecond)
  | map f inner ih =>
    obtain ⟨result, h, -⟩ := h
    exact ih hinside h
  | check verdict inner ih =>
    obtain ⟨result, h, -⟩ := h
    exact ih hinside h
  | optional inner ih =>
    obtain ⟨-, rfl⟩ | ⟨result, -, h⟩ := h
    · exact endFree_nil
    · exact ih hinside h
  | many inner ih => exact Run.endFree (ih hinside) h
  | many1 inner ih => exact Run.endFree (ih hinside) h.2
  | orElse first second ih ih' => exact h.elim (ih hinside.1) (ih' hinside.2)
  | block locate item ih =>
    obtain ⟨-, rfl⟩ | ⟨ends, lines, rfl, hends, hlines⟩ := h
    · exact endFree_nil
    · refine hends.endFree.append (hlines.endFree fun hline ↦ ?_)
      obtain ⟨front, ends, rfl, hitem, hends⟩ := hline
      exact (ih hinside hitem).append hends.endFree
  | nonEmpty what inner ih => exact ih hinside h.2

end Offside.Packrat
