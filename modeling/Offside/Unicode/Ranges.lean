/-!
# Tables of code point ranges

A property of characters is held as an ascending list of closed ranges of code points. Membership
is `inRanges`; `inRanges_eq_true_iff` reads it as a statement about one range of the table.
-/

namespace Offside.Unicode

/-- Some closed range of the table holds the code point. -/
def inRanges (table : List (Nat × Nat)) (code : Nat) : Bool :=
  table.any fun range => range.1 ≤ code && code ≤ range.2

/-- Membership in a table is membership in one of its ranges. -/
theorem inRanges_eq_true_iff {table : List (Nat × Nat)} {code : Nat} :
    inRanges table code = true ↔ ∃ range ∈ table, range.1 ≤ code ∧ code ≤ range.2 := by
  simp [inRanges]

end Offside.Unicode
