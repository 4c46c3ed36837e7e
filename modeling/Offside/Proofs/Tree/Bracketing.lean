import Offside.Proofs.Canonical.Tidiness
import Offside.Proofs.Tree.Erasure

/-!
# Rows of names and operators

A row is a name with links behind it, each an operator and the name that comes next. A tree brackets
the row if its names and operators are the row from left to right, and every operand binds as
tightly as its operator asks (`Brackets`). Up to locations no row has two such trees
(`Brackets.erase_eq`). An operator that does not chain ends every bracketed row at whose right end
an operator of its level stands (`Brackets.blocks`).
-/

namespace Offside

/-- A name where it stands. -/
structure Operand where
  location : Location
  name : String

/-- An operator where it stands, and the name behind it. -/
structure Link where
  location : Location
  operator : BinaryOperator
  operand : Operand

/-- How tightly the operator of a link binds. -/
def Link.precedence (link : Link) : Nat := link.operator.level.precedence

/-- The tree has the names and operators of the row. A left operand binds more tightly than its
operator, or as tightly if the operator chains; a right operand binds more tightly. -/
inductive Brackets : Operand → List Link → Expression → Prop where
  | operand (operand : Operand) : Brackets operand [] (.name operand.location operand.name)
  | node {first : Operand} {front back : List Link} {link : Link} {left right : Expression}
      (location : Location) : Brackets first front left → Brackets link.operand back right →
      link.precedence < left.rank ∨
        link.operator.level.chains = true ∧ left.rank = link.precedence →
      link.precedence < right.rank →
      Brackets first (front ++ link :: back) (.binary location link.operator left right)

/-- An operator of the rank stands at the right end of the tree: its right operand ends the tree. -/
def Expression.endsAt (rank : Nat) : Expression → Prop
  | .binary _ operator _ right => operator.level.precedence = rank ∨ right.endsAt rank
  | _ => False

/-- What is left of a row goes on with no operand of the rank: the next operator binds more loosely,
or it does not chain and one of its level ends the tree. -/
inductive Stuck (rank : Nat) (tree : Expression) : List Link → Prop where
  | done : Stuck rank tree []
  | looser {link : Link} {rest : List Link} : link.precedence < rank →
      Stuck rank tree (link :: rest)
  | blocked {link : Link} {rest : List Link} : link.operator.level.chains = false →
      tree.endsAt link.precedence → Stuck rank tree (link :: rest)

private theorem Level.precedence_injective {level other : Level}
    (h : level.precedence = other.precedence) : level = other := by
  cases level <;> cases other <;> first | rfl | cases h

/-- What goes on with no operand goes on with no chain of operands either, unless an operator of the
level comes next and may. -/
theorem Stuck.loosen {level : Level} {tree : Expression} {left : List Link}
    (h : Stuck (level.precedence + 1) tree left)
    (hlevel : ∀ link rest, left = link :: rest → link.operator.level = level →
      level.chains = false ∧ tree.endsAt level.precedence) : Stuck level.precedence tree left := by
  cases h with
  | done => exact .done
  | @looser link rest hlooser =>
    by_cases hsame : link.operator.level = level
    · obtain ⟨hchains, hends⟩ := hlevel link rest rfl hsame
      rw [← hsame] at hchains hends
      exact .blocked hchains hends
    · exact .looser (Nat.lt_of_le_of_ne (Nat.le_of_lt_succ hlooser) fun heq ↦
        hsame (Level.precedence_injective heq))
  | blocked hchains hends => exact .blocked hchains hends

/-- No operator binds less tightly than the first level. -/
theorem BinaryOperator.le_precedence (operator : BinaryOperator) :
    Level.xor.precedence ≤ operator.level.precedence := by
  cases operator <;> decide

private theorem Expression.endsAt_erase (rank : Nat) :
    (tree : Expression) → (tree.erase.endsAt rank ↔ tree.endsAt rank)
  | .binary _ _ _ right => or_congr Iff.rfl (Expression.endsAt_erase rank right)
  | .name .. | .string .. | .integer .. | .float .. | .boolean .. | .character .. | .tuple ..
  | .list .. | .unary .. | .property .. | .create .. | .message .. | .send .. | .block ..
  | .conditional .. => Iff.rfl

namespace Brackets

variable {first : Operand} {links taken left : List Link} {link : Link} {tree other : Expression}

/-! ### Ranks -/

/-- No operator of the row binds more loosely than the tree. -/
theorem rank_le (h : Brackets first links tree) : ∀ link ∈ links, tree.rank ≤ link.precedence := by
  induction h with
  | operand => exact List.forall_mem_nil _
  | @node first front back link left right location _ _ hleft hright ihleft ihright =>
    intro other hmem
    obtain hfront | rfl | hback := List.mem_append.1 hmem |>.imp_right List.mem_cons.1
    · have hle := ihleft other hfront
      have hlevel : link.precedence ≤ left.rank :=
        hleft.elim Nat.le_of_lt fun hchained ↦ Nat.le_of_eq hchained.2.symm
      exact Nat.le_trans hlevel hle
    · exact Nat.le_refl _
    · exact Nat.le_of_lt (Nat.lt_of_lt_of_le hright (ihright other hback))

/-- A tree binds more tightly than an operator if all operators of its row do. -/
theorem lt_rank (h : Brackets first links tree)
    (hlinks : ∀ other ∈ links, link.precedence < other.precedence) :
    link.precedence < tree.rank := by
  cases h with
  | operand => exact Nat.lt_of_le_of_lt link.operator.precedence_le (show 8 < 11 by decide)
  | node => exact hlinks _ List.mem_append_cons_self

/-- At the right end of a tree nothing binds more loosely than the tree. -/
theorem rank_le_of_endsAt (h : Brackets first links tree) {rank : Nat} (hends : tree.endsAt rank) :
    tree.rank ≤ rank := by
  induction h with
  | operand => exact hends.elim
  | node _ _ _ _ hright _ ih =>
    obtain heq | hends := hends
    · exact Nat.le_of_eq heq
    · exact Nat.le_of_lt (Nat.lt_of_lt_of_le hright (ih hends))

/-! ### One tree for a row -/

private theorem split_cases {front back front' back' : List Link} {link link' : Link}
    (h : front ++ link :: back = front' ++ link' :: back') :
    (front' = front ∧ link' = link ∧ back' = back) ∨
      (∃ middle, front' = front ++ link :: middle ∧ back = middle ++ link' :: back') ∨
      ∃ middle, front = front' ++ link' :: middle ∧ back' = middle ++ link :: back := by
  obtain ⟨middle, hfront, hback⟩ | ⟨middle, hfront, hback⟩ := List.append_eq_append_iff.1 h
  · cases middle with
    | nil =>
      obtain ⟨rfl, rfl⟩ := List.cons.inj hback
      exact .inl ⟨by simpa using hfront, rfl, rfl⟩
    | cons inner middle =>
      obtain ⟨rfl, rfl⟩ := List.cons.inj hback
      exact .inr (.inl ⟨middle, hfront, rfl⟩)
  · cases middle with
    | nil =>
      obtain ⟨rfl, rfl⟩ := List.cons.inj hback
      exact .inl ⟨by simpa using hfront.symm, rfl, rfl⟩
    | cons inner middle =>
      obtain ⟨rfl, rfl⟩ := List.cons.inj hback
      exact .inr (.inr ⟨middle, hfront, rfl⟩)

-- Of the operators at the tops of two trees for one row, none stands before the other.
private theorem not_before {front back' middle : List Link} {link link' : Link}
    {first : Operand} {right left' : Expression}
    (hright : Brackets link.operand (middle ++ link' :: back') right)
    (hleft' : Brackets first (front ++ link :: middle) left')
    (hrank : link.precedence < right.rank)
    (hrank' : link'.precedence < left'.rank ∨
      link'.operator.level.chains = true ∧ left'.rank = link'.precedence) : False := by
  have hle := hleft'.rank_le link List.mem_append_cons_self
  have hle' := hright.rank_le link' List.mem_append_cons_self
  obtain hlt | ⟨-, heq⟩ := hrank' <;> omega

/-- Up to the locations of inner nodes, at most one tree brackets a row. -/
theorem erase_eq (h : Brackets first links tree) (hother : Brackets first links other) :
    other.erase = tree.erase := by
  induction h generalizing other with
  | operand =>
    generalize hlinks : [] = links at hother
    cases hother with
    | operand => rfl
    | node => simp at hlinks
  | @node first front back link left right location hl hr hleft hright ihleft ihright =>
    generalize hlinks : front ++ link :: back = links at hother
    cases hother with
    | operand => simp at hlinks
    | @node _ front' back' link' left' right' location' hl' hr' hleft' hright' =>
      obtain ⟨rfl, rfl, rfl⟩ | ⟨middle, rfl, rfl⟩ | ⟨middle, rfl, rfl⟩ := split_cases hlinks
      · change Expression.binary .nowhere _ left'.erase right'.erase =
          .binary .nowhere _ left.erase right.erase
        rw [ihleft hl', ihright hr']
      · exact (not_before hr hl' hright hleft').elim
      · exact (not_before hr' hl hright' hleft).elim

/-! ### Fronts of rows -/

/-- What stands before an operator that does not chain is bracketed without an operator of its level
at the right end. -/
theorem cut (h : Brackets first links tree) (hlinks : links = taken ++ link :: left)
    (hchains : link.operator.level.chains = false) :
    ∃ front, Brackets first taken front ∧ ¬ front.endsAt link.precedence := by
  induction h generalizing taken left with
  | operand => simp at hlinks
  | @node first front back top leftTree rightTree location hl hr hleft hright ihleft ihright =>
    obtain ⟨rfl, rfl, rfl⟩ | ⟨middle, rfl, rfl⟩ | ⟨middle, rfl, rfl⟩ := split_cases hlinks
    · -- The operator is at the top, so that its left operand binds more tightly.
      refine ⟨leftTree, hl, fun hends ↦ ?_⟩
      obtain hlt | ⟨htrue, -⟩ := hleft
      · exact Nat.not_le_of_lt hlt (hl.rank_le_of_endsAt hends)
      · rw [hchains] at htrue
        cases htrue
    · -- The top stands before the operator, and keeps what its right operand has before it.
      obtain ⟨rest, hrest, hends⟩ := ihright rfl
      have htighter : ∀ other ∈ middle ++ link :: left, top.precedence < other.precedence :=
        fun other hmem ↦ Nat.lt_of_lt_of_le hright (hr.rank_le other hmem)
      refine ⟨.binary location top.operator leftTree rest, .node location hl hrest hleft
        (hrest.lt_rank fun other hmem ↦ htighter other (List.mem_append_left _ hmem)), ?_⟩
      rintro (heq | hrestEnds)
      · exact Nat.ne_of_lt (htighter link List.mem_append_cons_self) heq
      · exact hends hrestEnds
    · exact ihleft rfl

/-- An operator that does not chain goes on with no row at whose right end its level stands. -/
theorem blocks (h : Brackets first taken tree) (hends : tree.endsAt link.precedence)
    (hchains : link.operator.level.chains = false) :
    ¬ Brackets first (taken ++ link :: left) other := by
  intro hother
  obtain ⟨front, hfront, hfrontEnds⟩ := hother.cut rfl hchains
  rw [← Expression.endsAt_erase, h.erase_eq hfront, Expression.endsAt_erase] at hfrontEnds
  exact hfrontEnds hends

/-- Where no operator of any level goes on with a tree, no longer front of the row is bracketed. -/
theorem length_le (h : Brackets first taken tree) (hstuck : Stuck Level.xor.precedence tree left)
    {more : List Link} (hmore : more <+: taken ++ left) (hother : Brackets first more other) :
    more.length ≤ taken.length := by
  refine Nat.not_lt.1 fun hlonger ↦ ?_
  obtain ⟨longer, rfl⟩ := List.prefix_of_prefix_length_le (List.prefix_append taken left) hmore
    (Nat.le_of_lt hlonger)
  rw [List.prefix_append_right_inj] at hmore
  cases longer with
  | nil => simp at hlonger
  | cons link longer =>
    obtain ⟨rest, rfl⟩ := hmore
    cases hstuck with
    | looser hlooser => exact Nat.not_le_of_lt hlooser link.operator.le_precedence
    | blocked hchains hends => exact h.blocks hends hchains hother

end Brackets

end Offside
