import Offside.Outcome
import Std.Data.TreeMap

/-!
# The table of remembered results

A result is remembered under its rule, the position where the rule began and the column of the
innermost block. The first result under a key stays (`getElem?_store`); every question counts as a
hit or a miss.

Specification §3 (what is remembered) and §4.2.
-/

namespace Offside.Packrat

/-- What a result depends on. Specification §3, with the indent besides. -/
structure Key where
  rule : Rule
  position : Nat
  indent : Nat
  deriving DecidableEq, Inhabited

/-- Keys are ordered by position, then by indent, then by rule. -/
def Key.order : Key → Key → Ordering :=
  compareLex (compareOn Key.position)
    (compareLex (compareOn Key.indent) (compareOn fun key => key.rule.ctorIdx))

/-- Keys are ordered by their parts, one after the other. -/
instance : Std.TransCmp Key.order :=
  inferInstanceAs (Std.TransCmp (compareLex (compareOn Key.position)
    (compareLex (compareOn Key.indent) (compareOn fun key => key.rule.ctorIdx))))

private theorem eq_of_ctorIdx_eq {a b : Rule} (h : a.ctorIdx = b.ctorIdx) : a = b := by
  rw [← Rule.ofNat_ctorIdx a, h, Rule.ofNat_ctorIdx]

/-- Only equal keys are in no order. -/
instance : Std.LawfulEqCmp Key.order where
  eq_of_compare {a b} h := by
    simp only [Key.order, compareLex, compareOn, Ordering.then_eq_eq, Nat.compare_eq_eq] at h
    obtain ⟨hp, hi, hr⟩ := h
    cases a
    cases b
    cases hp
    cases hi
    cases eq_of_ctorIdx_eq hr
    rfl

/-- A remembered outcome and the position where its rule ended. -/
structure Entry where
  outcome : Outcome Node
  stop : Nat

/-- Remembered results and the count of questions about them. -/
structure Table where
  entries : Std.TreeMap Key Entry Key.order
  hits : Nat
  misses : Nat

namespace Table

/-- The table that remembers nothing. -/
def empty : Table := ⟨∅, 0, 0⟩

/-- A table there always is, the empty one. -/
instance : Inhabited Table := ⟨empty⟩

/-- The number of remembered results. -/
def size (table : Table) : Nat := table.entries.size

/-- Asks for the result under a key as one of a family. A success of another family is a fault,
while failures are of no family. Specification §4.2. -/
def lookup (table : Table) (key : Key) (family : Family) :
    Except Fault (Option (Outcome family.Carrier × Nat) × Table) :=
  match table.entries[key]? with
  | none => .ok (none, { table with misses := table.misses + 1 })
  | some ⟨outcome, stop⟩ =>
    let counted := { table with hits := table.hits + 1 }
    match outcome with
    | .recoverable failure => .ok (some (.recoverable failure, stop), counted)
    | .fatal failure => .ok (some (.fatal failure, stop), counted)
    | .ok node =>
      match node.as? family with
      | some value => .ok (some (.ok value, stop), counted)
      | none => .error (.foreignNode key.rule)

/-- Remembers a result unless one is remembered under the key. Specification §3: entries are never
replaced. -/
def store (table : Table) (key : Key) {family : Family} (outcome : Outcome family.Carrier)
    (stop : Nat) : Table :=
  { table with entries := table.entries.insertIfNew key ⟨outcome.map (⟨family, ·⟩), stop⟩ }

/-- Asking changes the counts alone. -/
theorem entries_of_lookup {table table' : Table} {key : Key} {family : Family}
    {found : Option (Outcome family.Carrier × Nat)}
    (h : table.lookup key family = .ok (found, table')) : table'.entries = table.entries := by
  unfold lookup at h
  split at h
  · cases h
    rfl
  · dsimp only at h
    split at h
    · cases h
      rfl
    · cases h
      rfl
    · split at h <;> cases h
      rfl

/-- A question counts as a miss where nothing is remembered under the key. -/
theorem misses_of_lookup {table table' : Table} {key : Key} {family : Family}
    {found : Option (Outcome family.Carrier × Nat)}
    (h : table.lookup key family = .ok (found, table')) :
    table'.misses = if found.isNone then table.misses + 1 else table.misses := by
  unfold lookup at h
  split at h
  · cases h
    rfl
  · dsimp only at h
    split at h
    · cases h
      rfl
    · cases h
      rfl
    · split at h <;> cases h
      rfl

/-- What is answered is remembered under the key. -/
theorem getElem?_of_lookup {table table' : Table} {key : Key} {family : Family}
    {outcome : Outcome family.Carrier} {stop : Nat}
    (h : table.lookup key family = .ok (some (outcome, stop), table')) :
    table.entries[key]? = some ⟨outcome.map (⟨family, ·⟩), stop⟩ := by
  unfold lookup at h
  split at h
  · cases h
  · next hentry =>
    rw [hentry]
    dsimp only at h
    split at h
    · cases h
      rfl
    · cases h
      rfl
    · next node =>
      split at h
      · next value hvalue =>
        cases h
        unfold Node.as? at hvalue
        split at hvalue
        · next hfamily =>
          obtain ⟨_, value⟩ := node
          cases hfamily
          cases hvalue
          rfl
        · cases hvalue
      · cases h

/-- A stored result is found under its key unless one was there, and under no other key. -/
theorem getElem?_store (table : Table) (key other : Key) {family : Family}
    (outcome : Outcome family.Carrier) (stop : Nat) :
    (table.store key outcome stop).entries[other]? =
      if other = key ∧ table.entries[key]? = none then
        some ⟨outcome.map (⟨family, ·⟩), stop⟩
      else table.entries[other]? := by
  have hkey : Key.order key other = .eq ↔ other = key := by
    rw [Std.LawfulEqCmp.compare_eq_iff_eq, eq_comm]
  simp only [store, Std.TreeMap.getElem?_insertIfNew, hkey, Std.TreeMap.mem_iff_isSome_getElem?]
  cases table.entries[key]? <;> simp

/-- A table grows by the results that are stored under fresh keys. -/
theorem size_store (table : Table) (key : Key) {family : Family}
    (outcome : Outcome family.Carrier) (stop : Nat) :
    (table.store key outcome stop).size =
      if table.entries[key]? = none then table.size + 1 else table.size := by
  simp only [store, size, Std.TreeMap.size_insertIfNew, Std.TreeMap.mem_iff_isSome_getElem?]
  cases table.entries[key]? <;> simp

end Table

end Offside.Packrat
