import Offside.Source.Token

/-!
# Rows of tokens

The ways in which a row of tokens is cut into items: one behind the other, with commas between them,
or with line ends behind them. What may stand on a line with the tokens before it depends on whether
these end with a line end (`EndsLine`).
-/

namespace Offside.Packrat

variable {α : Type}

/-- The last of the tokens ends a line. -/
def EndsLine (tokens : List Token) : Prop :=
  ∃ token, tokens.getLast? = some token ∧ token.kind = .endOfLine

/-- The last of the tokens ends a line or, if there are none, a line has ended before. -/
def EndsLineFrom (before : Prop) (tokens : List Token) : Prop :=
  EndsLine tokens ∨ (tokens = [] ∧ before)

/-- Line ends, or nothing. -/
def LineEnds (tokens : List Token) : Prop := ∀ token ∈ tokens, token.kind = .endOfLine

/-- The token is a name. -/
structure IsName (token : Token) (name : String) : Prop where
  kind : token.kind = .identifier
  payload : token.payload = .text name

/-- Any number of items. -/
inductive Many (Item : List Token → α → Prop) : List Token → List α → Prop where
  | nil : Many Item [] []
  | cons {first rest : List Token} {item : α} {items : List α} :
      Item first item → Many Item rest items → Many Item (first ++ rest) (item :: items)

/-- Items with commas between them, at least one. -/
inductive Commas (Item : List Token → α → Prop) : List Token → List α → Prop where
  | one {tokens : List Token} {item : α} : Item tokens item → Commas Item tokens [item]
  | cons {first rest : List Token} {comma : Token} {item : α} {items : List α} :
      Item first item → comma.kind = .comma → Commas Item rest items →
        Commas Item (first ++ comma :: rest) (item :: items)

/-- Any number of items with a comma behind each. -/
inductive Fronts (Item : List Token → α → Prop) : List Token → List α → Prop where
  | nil : Fronts Item [] []
  | cons {first rest : List Token} {comma : Token} {item : α} {items : List α} :
      Item first item → comma.kind = .comma → Fronts Item rest items →
        Fronts Item (first ++ comma :: rest) (item :: items)

/-- Items with commas between them, or nothing. -/
inductive Listed (Item : List Token → α → Prop) : List Token → List α → Prop where
  | none : Listed Item [] []
  | some {tokens : List Token} {items : List α} : Commas Item tokens items →
    Listed Item tokens items

/-- Items behind each of which line ends may stand. -/
inductive Lines (Item : List Token → α → Prop) : List Token → List α → Prop where
  | nil : Lines Item [] []
  | cons {first ends rest : List Token} {item : α} {items : List α} :
      Item first item → LineEnds ends → Lines Item rest items →
        Lines Item (first ++ (ends ++ rest)) (item :: items)

/-- A block: at least one item, with line ends behind each item and before the first. -/
inductive BlockOf (Item : List Token → α → Prop) : List Token → List α → Prop where
  | mk {ends lines : List Token} {items : List α} :
      LineEnds ends → Lines Item lines items → items ≠ [] → BlockOf Item (ends ++ lines) items

section Commas

variable {Item Other : List Token → α → Prop} {tokens : List Token} {items : List α}

/-- No item is longer than a bound on the row that it stands in. -/
theorem Commas.within (h : Commas Item tokens items) {bound : Nat}
    (hbound : tokens.length ≤ bound) :
    Commas (fun row item ↦ Item row item ∧ row.length ≤ bound) tokens items := by
  induction h with
  | one hitem => exact .one ⟨hitem, hbound⟩
  | cons hitem hcomma _ ih =>
    rw [List.length_append, List.length_cons] at hbound
    exact .cons ⟨hitem, by omega⟩ hcomma (ih (by omega))

/-- Listed items are short if the whole row is. -/
theorem Listed.within (h : Listed Item tokens items) {bound : Nat}
    (hbound : tokens.length ≤ bound) :
    Listed (fun row item ↦ Item row item ∧ row.length ≤ bound) tokens items := by
  cases h with
  | none => exact .none
  | some hcommas => exact .some (hcommas.within hbound)

private theorem Commas.imp (h : Commas Item tokens items)
    (himp : ∀ row, ∀ item ∈ items, Item row item → Other row item) :
    Commas Other tokens items := by
  induction h with
  | one hitem => exact .one (himp _ _ List.mem_cons_self hitem)
  | cons hitem hcomma _ ih =>
    exact .cons (himp _ _ List.mem_cons_self hitem) hcomma
      (ih fun row item hmem ↦ himp row item (List.mem_cons_of_mem _ hmem))

private theorem Commas.exists_row (h : Commas Item tokens items) :
    ∀ item ∈ items, ∃ row, Item row item := by
  induction h with
  | one hitem => exact List.forall_mem_singleton.2 ⟨_, hitem⟩
  | cons hitem _ _ ih => exact List.forall_mem_cons.2 ⟨⟨_, hitem⟩, ih⟩

/-- Each listed item has its row. -/
theorem Listed.exists_row (h : Listed Item tokens items) :
    ∀ item ∈ items, ∃ row, Item row item := by
  cases h with
  | none => exact List.forall_mem_nil _
  | some hcommas => exact hcommas.exists_row

/-- Listed items are listed as whatever follows from what they are. -/
theorem Listed.imp (h : Listed Item tokens items)
    (himp : ∀ row, ∀ item ∈ items, Item row item → Other row item) :
    Listed Other tokens items := by
  cases h with
  | none => exact .none
  | some hcommas => exact .some (hcommas.imp himp)

end Commas

/-- No token ends a line unless one ended before. -/
theorem endsLineFrom_nil (before : Prop) : EndsLineFrom before [] ↔ before := by
  simp [EndsLineFrom, EndsLine]

/-- The last token says whether a line ends. -/
theorem endsLineFrom_concat (before : Prop) (tokens : List Token) (token : Token) :
    EndsLineFrom before (tokens ++ [token]) ↔ token.kind = .endOfLine := by
  simp [EndsLineFrom, EndsLine]

/-- What stands before a row that is not empty has no say in how it ends. -/
theorem endsLineFrom_iff {before : Prop} {tokens : List Token} (h : tokens ≠ []) :
    EndsLineFrom before tokens ↔ EndsLine tokens := by
  simp [EndsLineFrom, h]

/-- The second of two rows says whether a line ends, if it has a token. -/
theorem endsLine_append {first second : List Token} (h : second ≠ []) :
    EndsLine (first ++ second) ↔ EndsLine second := by
  unfold EndsLine
  rw [List.getLast?_append, List.getLast?_eq_some_getLast h, Option.some_or]

end Offside.Packrat
