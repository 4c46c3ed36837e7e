import Offside.Grammar.Leaves
import Offside.Proofs.Grammar.Derivation

/-!
# Lists and tuples that take the rest several times

A list or tuple may take the rest once. The failure of one that does so several times is found where
it ends, and may then be passed over: where a pattern may be left out, none is taken to stand there.
What stands around a list or tuple decides whether its failure is reported (`Pattern.offence?`).
-/

namespace Offside

open Packrat Offside.Derivation

/-- The failure of patterns between brackets or parentheses that take the rest several times: it
stands at the second of those that do. -/
def severalVariadics? (opening : Location) (patterns : List Pattern) : Option Failure :=
  ((patterns.filter Pattern.isVariadic)[1]?).map fun second ↦
    ⟨second.location, .severalVariadics opening⟩

private theorem severalVariadics?_eq_none {opening : Location} {patterns : List Pattern} :
    severalVariadics? opening patterns = none ↔ OneVariadic patterns := by
  rw [severalVariadics?, Option.map_eq_none_iff, List.getElem?_eq_none_iff, OneVariadic]

/-- Patterns with at most one variadic one among them are accepted. -/
theorem withOneVariadic_of_none {build : Location → List Pattern → Pattern} {opening : Location}
    {patterns : List Pattern} (h : severalVariadics? opening patterns = none) :
    Grammar.withOneVariadic build opening patterns = .ok (build opening patterns) := by
  rw [severalVariadics?, Option.map_eq_none_iff] at h
  rw [Grammar.withOneVariadic, h]

/-- Patterns with several variadic ones among them are rejected with the failure that says so. -/
theorem withOneVariadic_of_some {build : Location → List Pattern → Pattern} {opening : Location}
    {patterns : List Pattern} {failure : Failure}
    (h : severalVariadics? opening patterns = some failure) :
    Grammar.withOneVariadic build opening patterns = .recoverable failure := by
  obtain ⟨second, hsecond, rfl⟩ := Option.map_eq_some_iff.1 h
  rw [Grammar.withOneVariadic, hsecond]

/-- What becomes in a pattern of the failure of a list or tuple. -/
inductive Offence where
  /-- The pattern itself fails, and may be passed over by what it stands in. -/
  | own (failure : Failure)
  /-- The pattern stands where one must, so that the failure is reported. -/
  | kept (failure : Failure)
  /-- The pattern stands where none must, and is passed over. -/
  | lost (failure : Failure)
  deriving DecidableEq

namespace Offence

/-- The failure of the list or tuple. -/
def failure : Offence → Failure
  | own failure | kept failure | lost failure => failure

/-- What becomes of the failure where the pattern stands in another one, and may be left out or
not. -/
def within (optional : Bool) : Offence → Offence
  | own failure => if optional then lost failure else kept failure
  | offence => offence

private theorem failure_within (optional : Bool) (offence : Offence) :
    (offence.within optional).failure = offence.failure := by
  cases offence <;> cases optional <;> rfl

end Offence

mutual

/-- What becomes of the failure of the first list or tuple to end that takes the rest several
times. -/
def Pattern.offence? : Pattern → Option Offence
  | .name .. | .ignored _ => none
  | .list opening patterns =>
    (listOffence? true patterns).or ((severalVariadics? opening patterns).map .own)
  | .tuple opening patterns =>
    (tupleOffence? patterns).or ((severalVariadics? opening patterns).map .own)
  | .variadic _ inner => innerOffence? inner

/-- The first of the patterns may be left out or not; the others may not, as commas stand before
them. -/
def listOffence? (optional : Bool) : List Pattern → Option Offence
  | [] => none
  | pattern :: rest => (pattern.offence?.map (·.within optional)).or (listOffence? false rest)

/-- The first pattern of a tuple may not be left out, while the second one may. -/
def tupleOffence? : List Pattern → Option Offence
  | [] => none
  | pattern :: rest => (pattern.offence?.map (·.within false)).or (listOffence? true rest)

/-- Two periods may stand without a pattern behind them. -/
def innerOffence? : Option Pattern → Option Offence
  | none => none
  | some pattern => pattern.offence?.map (·.within true)

end

/-- The failure is that of a list or tuple in the pattern, at any depth, that takes the rest several
times. -/
inductive Offends (failure : Failure) : Pattern → Prop where
  | list {opening : Location} {patterns : List Pattern} :
      severalVariadics? opening patterns = some failure → Offends failure (.list opening patterns)
  | tuple {opening : Location} {patterns : List Pattern} :
      severalVariadics? opening patterns = some failure → Offends failure (.tuple opening patterns)
  | inList {opening : Location} {patterns : List Pattern} {pattern : Pattern} :
      pattern ∈ patterns → Offends failure pattern → Offends failure (.list opening patterns)
  | inTuple {opening : Location} {patterns : List Pattern} {pattern : Pattern} :
      pattern ∈ patterns → Offends failure pattern → Offends failure (.tuple opening patterns)
  | inVariadic {periods : Location} {inner : Pattern} :
      Offends failure inner → Offends failure (.variadic periods (some inner))

section Offends

variable {optional : Bool} {offence : Offence} {patterns : List Pattern}

private theorem or_own_eq_some {inside : Option Offence} {opening : Location}
    (h : inside.or ((severalVariadics? opening patterns).map .own) = some offence) :
    inside = some offence ∨ severalVariadics? opening patterns = some offence.failure := by
  obtain hinside | ⟨-, hown⟩ := Option.or_eq_some_iff.1 h
  · exact .inl hinside
  · obtain ⟨failure, hfailure, rfl⟩ := Option.map_eq_some_iff.1 hown
    exact .inr hfailure

mutual

/-- The failure of an offence is that of a list or tuple in the pattern. -/
theorem offends_of_offence? : {pattern : Pattern} → {offence : Offence} →
    pattern.offence? = some offence → Offends offence.failure pattern
  | .name .., _, h => nomatch h
  | .ignored _, _, h => nomatch h
  | .list .., _, h => by
    obtain hinside | hown := or_own_eq_some h
    · obtain ⟨pattern, hmem, hoffends⟩ := exists_offends_of_listOffence? hinside
      exact .inList hmem hoffends
    · exact .list hown
  | .tuple .., _, h => by
    obtain hinside | hown := or_own_eq_some h
    · obtain ⟨pattern, hmem, hoffends⟩ := exists_offends_of_tupleOffence? hinside
      exact .inTuple hmem hoffends
    · exact .tuple hown
  | .variadic _ none, _, h => nomatch h
  | .variadic _ (some inner), _, h => by
    obtain ⟨offence, hoffence, rfl⟩ := Option.map_eq_some_iff.1 h
    rw [Offence.failure_within]
    exact .inVariadic (offends_of_offence? hoffence)

private theorem exists_offends_of_listOffence? : {optional : Bool} → {patterns : List Pattern} →
    {offence : Offence} → listOffence? optional patterns = some offence →
      ∃ pattern ∈ patterns, Offends offence.failure pattern
  | _, [], _, h => nomatch h
  | _, first :: _, _, h => by
    obtain hfirst | ⟨-, hrest⟩ := Option.or_eq_some_iff.1 h
    · obtain ⟨offence, hoffence, rfl⟩ := Option.map_eq_some_iff.1 hfirst
      rw [Offence.failure_within]
      exact ⟨first, List.mem_cons_self, offends_of_offence? hoffence⟩
    · obtain ⟨pattern, hmem, hoffends⟩ := exists_offends_of_listOffence? hrest
      exact ⟨pattern, List.mem_cons_of_mem _ hmem, hoffends⟩

private theorem exists_offends_of_tupleOffence? : {patterns : List Pattern} → {offence : Offence} →
    tupleOffence? patterns = some offence → ∃ pattern ∈ patterns, Offends offence.failure pattern
  | [], _, h => nomatch h
  | first :: _, _, h => by
    obtain hfirst | ⟨-, hrest⟩ := Option.or_eq_some_iff.1 h
    · obtain ⟨offence, hoffence, rfl⟩ := Option.map_eq_some_iff.1 hfirst
      rw [Offence.failure_within]
      exact ⟨first, List.mem_cons_self, offends_of_offence? hoffence⟩
    · obtain ⟨pattern, hmem, hoffends⟩ := exists_offends_of_listOffence? hrest
      exact ⟨pattern, List.mem_cons_of_mem _ hmem, hoffends⟩

end

end Offends

namespace Derivation

/-- The rows of tokens that are a pattern, except that its lists and tuples may take the rest any
number of times. -/
inductive IsLoosePattern : List Token → Pattern → Prop where
  | name {word : Token} {name : String} : IsName word name →
      IsLoosePattern [word] (.name word.location name)
  | ignored {sign : Token} : sign.kind = .underscore →
      IsLoosePattern [sign] (.ignored sign.location)
  | list {opening closing : Token} {tokens : List Token} {patterns : List Pattern} :
      opening.kind = .leftBracket → Listed IsLoosePattern tokens patterns →
      closing.kind = .rightBracket →
      IsLoosePattern (opening :: (tokens ++ [closing])) (.list opening.location patterns)
  | tuple {opening comma closing : Token} {head tail : List Token} {first : Pattern}
      {rest : List Pattern} : opening.kind = .leftParen → IsLoosePattern head first →
      comma.kind = .comma → Listed IsLoosePattern tail rest → closing.kind = .rightParen →
      IsLoosePattern (opening :: (head ++ comma :: (tail ++ [closing])))
        (.tuple opening.location (first :: rest))
  | variadic {periods : Token} : periods.kind = .doublePeriod →
      IsLoosePattern [periods] (.variadic periods.location none)
  | variadicInner {periods : Token} {tokens : List Token} {inner : Pattern} :
      periods.kind = .doublePeriod → IsLoosePattern tokens inner →
      IsLoosePattern (periods :: tokens) (.variadic periods.location (some inner))

variable {row : List Token} {pattern : Pattern}

/-- Patterns of which no one offends do not offend as the items of a list. -/
theorem listOffence?_eq_none {optional : Bool} {patterns : List Pattern} :
    listOffence? optional patterns = none ↔ ∀ pattern ∈ patterns, pattern.offence? = none := by
  induction patterns generalizing optional with
  | nil => simp [listOffence?]
  | cons first rest ih => simp [listOffence?, ih]

private theorem offence?_of_isPattern (h : IsPattern row pattern) : pattern.offence? = none := by
  induction hlength : row.length using Nat.strongRecOn generalizing row pattern with
  | ind n ih =>
    cases h with
    | name | ignored | variadic => rfl
    | list hopening hpatterns hclosing hone =>
      simp only [List.length_cons, List.length_append, List.length_nil] at hlength
      have hinside : listOffence? true _ = none := listOffence?_eq_none.2 fun inner hmem ↦ by
        obtain ⟨_, hrow, hle⟩ := (hpatterns.within (Nat.le_refl _)).exists_row inner hmem
        exact ih _ (by omega) hrow rfl
      rw [Pattern.offence?, hinside, severalVariadics?_eq_none.2 hone]
      rfl
    | tuple hopening hfirst hcomma hrest hclosing hone =>
      simp only [List.length_cons, List.length_append, List.length_nil] at hlength
      have htail : listOffence? true _ = none := listOffence?_eq_none.2 fun inner hmem ↦ by
        obtain ⟨_, hrow, hle⟩ := (hrest.within (Nat.le_refl _)).exists_row inner hmem
        exact ih _ (by omega) hrow rfl
      rw [Pattern.offence?, tupleOffence?, ih _ (by omega) hfirst rfl, htail,
        severalVariadics?_eq_none.2 hone]
      rfl
    | variadicInner hperiods hinner =>
      rw [List.length_cons] at hlength
      rw [Pattern.offence?, innerOffence?, ih _ (by omega) hinner rfl]
      rfl

private theorem isLoosePattern_of_isPattern (h : IsPattern row pattern) :
    IsLoosePattern row pattern := by
  induction hlength : row.length using Nat.strongRecOn generalizing row pattern with
  | ind n ih =>
    cases h with
    | name hword => exact .name hword
    | ignored hsign => exact .ignored hsign
    | list hopening hpatterns hclosing =>
      simp only [List.length_cons, List.length_append, List.length_nil] at hlength
      exact .list hopening ((hpatterns.within (Nat.le_refl _)).imp fun _ _ _ ⟨hrow, hle⟩ ↦
        ih _ (by omega) hrow rfl) hclosing
    | tuple hopening hfirst hcomma hrest hclosing =>
      simp only [List.length_cons, List.length_append, List.length_nil] at hlength
      exact .tuple hopening (ih _ (by omega) hfirst rfl) hcomma
        ((hrest.within (Nat.le_refl _)).imp fun _ _ _ ⟨hrow, hle⟩ ↦ ih _ (by omega) hrow rfl)
        hclosing
    | variadic hperiods => exact .variadic hperiods
    | variadicInner hperiods hinner =>
      rw [List.length_cons] at hlength
      exact .variadicInner hperiods (ih _ (by omega) hinner rfl)

private theorem isPattern_of_isLoosePattern (h : IsLoosePattern row pattern)
    (hnone : pattern.offence? = none) : IsPattern row pattern := by
  induction hlength : row.length using Nat.strongRecOn generalizing row pattern with
  | ind n ih =>
    cases h with
    | name hword => exact .name hword
    | ignored hsign => exact .ignored hsign
    | list hopening hpatterns hclosing =>
      simp only [List.length_cons, List.length_append, List.length_nil] at hlength
      rw [Pattern.offence?, Option.or_eq_none_iff, listOffence?_eq_none, Option.map_eq_none_iff,
        severalVariadics?_eq_none] at hnone
      obtain ⟨hinside, hone⟩ := hnone
      refine .list hopening ?_ hclosing hone
      exact (hpatterns.within (Nat.le_refl _)).imp fun _ inner hmem ⟨hrow, hle⟩ ↦
        ih _ (by omega) hrow (hinside inner hmem) rfl
    | tuple hopening hfirst hcomma hrest hclosing =>
      simp only [List.length_cons, List.length_append, List.length_nil] at hlength
      rw [Pattern.offence?, tupleOffence?, Option.or_eq_none_iff, Option.or_eq_none_iff,
        listOffence?_eq_none, Option.map_eq_none_iff, Option.map_eq_none_iff,
        severalVariadics?_eq_none] at hnone
      obtain ⟨⟨hhead, htail⟩, hone⟩ := hnone
      refine .tuple hopening (ih _ (by omega) hfirst hhead rfl) hcomma ?_ hclosing hone
      exact (hrest.within (Nat.le_refl _)).imp fun _ inner hmem ⟨hrow, hle⟩ ↦
        ih _ (by omega) hrow (htail inner hmem) rfl
    | variadic hperiods => exact .variadic hperiods
    | variadicInner hperiods hinner =>
      rw [List.length_cons] at hlength
      rw [Pattern.offence?, innerOffence?, Option.map_eq_none_iff] at hnone
      exact .variadicInner hperiods (ih _ (by omega) hinner hnone rfl)

/-- A row is a pattern if it is one up to the number of variadic patterns, and none offends. -/
theorem isPattern_iff :
    IsPattern row pattern ↔ IsLoosePattern row pattern ∧ pattern.offence? = none :=
  ⟨fun h ↦ ⟨isLoosePattern_of_isPattern h, offence?_of_isPattern h⟩,
    fun ⟨hrow, hnone⟩ ↦ isPattern_of_isLoosePattern hrow hnone⟩

/-- A row of patterns up to the first that offends, behind which a comma or nothing stands. -/
inductive Cut (Item : List Token → Pattern → Prop) (optional : Bool) :
    List Token → Offence → Prop where
  | first {part more : List Token} {inner : Pattern} {offence : Offence} :
      Item part inner → inner.offence? = some offence →
      (∀ sign ∈ more.head?, sign.kind = .comma) →
      Cut Item optional (part ++ more) (offence.within optional)
  | later {head front part more : List Token} {comma : Token} {first inner : Pattern}
      {passed : List Pattern} {offence : Offence} :
      Item head first → first.offence? = none → comma.kind = .comma →
      Fronts (fun row pattern ↦ Item row pattern ∧ pattern.offence? = none) front passed →
      Item part inner → inner.offence? = some offence →
      (∀ sign ∈ more.head?, sign.kind = .comma) →
      Cut Item optional (head ++ comma :: (front ++ (part ++ more))) (offence.within false)

/-- The patterns of a list are cut at the first that offends. -/
theorem cut_of_listOffence? {Item : List Token → Pattern → Prop} {optional : Bool}
    {patterns : List Pattern} {offence : Offence} (h : Commas Item row patterns)
    (hoffence : listOffence? optional patterns = some offence) : Cut Item optional row offence := by
  induction h generalizing optional with
  | one hitem =>
    rw [listOffence?, Option.or_eq_some_iff] at hoffence
    obtain hfirst | ⟨-, hnone⟩ := hoffence
    · obtain ⟨inside, hinside, rfl⟩ := Option.map_eq_some_iff.1 hfirst
      have hcut : Cut Item optional (_ ++ []) _ := .first hitem hinside (by rintro _ ⟨⟩)
      rwa [List.append_nil] at hcut
    · cases hnone
  | cons hitem hcomma hmore ih =>
    rw [listOffence?, Option.or_eq_some_iff] at hoffence
    obtain hfirst | ⟨hnone, hrest⟩ := hoffence
    · obtain ⟨inside, hinside, rfl⟩ := Option.map_eq_some_iff.1 hfirst
      exact .first hitem hinside (by rintro _ ⟨⟩; exact hcomma)
    · rw [Option.map_eq_none_iff] at hnone
      cases ih hrest with
      | first hpart hinside hbehind => exact .later hitem hnone hcomma .nil hpart hinside hbehind
      | later hsecond hclean hsign hfront hpart hinside hbehind =>
        have hcut : Cut Item optional _ _ :=
          .later hitem hnone hcomma (.cons ⟨hsecond, hclean⟩ hsign hfront) hpart hinside hbehind
        rw [List.append_assoc, List.cons_append] at hcut
        exact hcut

end Derivation

end Offside
