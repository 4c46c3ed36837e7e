import Offside.Proofs.Packrat.Law

/-!
# Bodies that run

Where results are remembered, each body that is seen to run counts as a miss, and a result is new
only under a key whose body was seen to run (`Table.Grows`). This is a law of watched runs
(`Watched.law_records`), and a rule that is remembered obeys it (`Watch.records_remembered`).
-/

namespace Offside.Packrat

variable {α β : Type} {input : Input} {s : State}

/-- A table becomes another one while the bodies of some keys run: each of them is a miss, and what
is remembered is new under their keys alone. -/
structure Table.Grows (table : Table) (keys : List Key) (table' : Table) : Prop where
  misses : table'.misses = table.misses + keys.length
  entries : ∀ key ∈ table'.entries, key ∈ table.entries ∨ key ∈ keys

/-- No body runs where the table stays as it is. -/
theorem Table.Grows.refl (table : Table) : table.Grows [] table := ⟨rfl, fun _ ↦ .inl⟩

/-- Bodies run one after the other. -/
theorem Table.Grows.trans {table table' table'' : Table} {keys keys' : List Key}
    (h : table.Grows keys table') (h' : table'.Grows keys' table'') :
    table.Grows (keys ++ keys') table'' where
  misses := by rw [h'.misses, h.misses, List.length_append, Nat.add_assoc]
  entries key hkey := by
    rw [List.mem_append]
    obtain hbefore | hlater := h'.entries key hkey
    · exact (h.entries key hbefore).imp_right .inl
    · exact .inr (.inr hlater)

/-- A remembered result runs no body. -/
theorem Table.Grows.hit {table table' : Table} {key : Key} {family : Family}
    {found : Outcome family.Carrier × Nat}
    (h : table.lookup key family = .ok (some found, table')) : table.Grows [] table' where
  misses := Table.misses_of_lookup h
  entries other hother := by
    rw [Table.entries_of_lookup h] at hother
    exact .inl hother

/-- What is remembered after a miss is the result of one more body. -/
theorem Table.Grows.miss {table asked reached : Table} {key : Key} {family : Family}
    {keys : List Key} (hasked : table.lookup key family = .ok (none, asked))
    (h : asked.Grows keys reached) (outcome : Outcome family.Carrier) (stop : Nat) :
    table.Grows (key :: keys) (reached.store key outcome stop) where
  misses := by
    change reached.misses = _
    rw [h.misses, Table.misses_of_lookup hasked, List.length_cons]
    exact Nat.succ_add_eq_add_succ ..
  entries other hother := by
    rw [List.mem_cons]
    obtain hkey | hother := Std.TreeMap.mem_insertIfNew.1 hother
    · exact .inr (.inl (Std.LawfulEqCmp.eq_of_compare hkey).symm)
    · refine (h.entries other hother).imp (fun hbefore ↦ ?_) .inr
      rwa [Table.entries_of_lookup hasked] at hbefore

namespace Watched

/-- The table grows by the bodies that are seen to run. -/
def Records (s : State) (run : Watched α) : Prop :=
  ∀ ⦃outcome s'⦄, run.answer = .ok (outcome, s') → s.table.Grows run.bodies s'.table

private theorem bodies_resume (first : Watched α) (next : Outcome α → State → Watched β) :
    (first.resume next).bodies = first.bodies ++
      match first.answer with
      | .error _ => []
      | .ok (outcome, reached) => (next outcome reached).bodies := by
  unfold bodies
  rw [events_resume, List.filterMap_append]
  cases first.answer <;> rfl

private theorem bodies_asPart (run : Watched α) : (run.asPart s).bodies = run.bodies := by
  unfold asPart
  split
  · rfl
  · next outcome _ _ =>
    change List.filterMap _ (run.events ++ [.leave _]) = _
    rw [List.filterMap_append]
    exact List.append_nil _

/-- What has no part records nothing where the table stays as it is. -/
theorem records_stay {outcome : Outcome α} {m : State} (hm : m.table = s.table) :
    (silent (.ok (outcome, m))).Records s := by
  intro _ s' h
  cases h
  rw [hm]
  exact .refl s.table

/-- A fault records nothing. -/
theorem records_fault (fault : Fault) : (silent (α := α) (.error fault)).Records s := by
  intro _ _ h
  cases h

/-- Records are a matter of the table alone. -/
theorem Records.of_table {m : State} {run : Watched α} (h : run.Records m)
    (hm : m.table = s.table) : run.Records s := by
  intro _ _ hanswer
  rw [← hm]
  exact h hanswer

/-- What goes on from a run records what the run does and then its own. -/
theorem Records.resume {run : Watched α} {next : Outcome α → State → Watched β}
    (h : run.Records s) (hnext : ∀ outcome m, (next outcome m).Records m) :
    (run.resume next).Records s := by
  intro outcome' s' hanswer
  rw [answer_resume] at hanswer
  rw [bodies_resume]
  cases hfirst : run.answer with
  | error fault =>
    rw [hfirst] at hanswer
    cases hanswer
  | ok result =>
    obtain ⟨outcome, m⟩ := result
    rw [hfirst] at hanswer
    exact (h hfirst).trans (hnext outcome m hanswer)

/-- A part records what its run does. -/
theorem Records.asPart {run : Watched α} (h : run.Records s) : (run.asPart s).Records s := by
  intro outcome s' hanswer
  rw [bodies_asPart]
  exact h ((answer_asPart s run).symm.trans hanswer)

/-- To record bodies is a law of watched runs. -/
theorem law_records : Law Records where
  stay _ htable := records_stay htable
  fault := records_fault
  moved h := h.of_table rfl
  resume h _ hnext := h.resume hnext
  part h := h.asPart
  close _ h _ hnext := Records.resume (h.of_table rfl) fun outcome m ↦ by
    obtain ⟨outcome', m', hsilent, -, htable⟩ := hnext outcome m
    rw [hsilent]
    exact records_stay htable

end Watched

/-! ### Watches that record -/

open Watched

namespace Watch

/-- Whatever state it begins in, the watch records the bodies that run. -/
def Records (input : Input) (watch : Watch α) : Prop := ∀ s, (watch input s).Records s

/-- A rule that is remembered runs its body only where its key is new, and its result is the only
one that the rule itself adds. -/
theorem records_remembered (hmemoize : input.memoize = true) (rule : Rule)
    {a : Watch rule.Result} (h : a.Records input) : (remembered rule a).Records input := by
  intro s outcome s' hanswer
  unfold remembered at hanswer ⊢
  dsimp only at hanswer ⊢
  rw [if_pos hmemoize] at hanswer ⊢
  split at hanswer
  · cases hanswer
  · next hlookup =>
    cases hanswer
    exact .hit hlookup
  · next table hlookup =>
    rw [answer_resume] at hanswer
    rw [bodies_resume]
    cases hbody : (a input { s with table }).answer with
    | error fault =>
      rw [asBody, hbody] at hanswer
      cases hanswer
    | ok result =>
      obtain ⟨found, m⟩ := result
      rw [asBody, hbody] at hanswer ⊢
      cases hanswer
      have hgrows := Table.Grows.miss hlookup (h { s with table } hbody) outcome m.position
      rw [← List.append_nil (_ :: _)] at hgrows
      exact hgrows

end Watch

/-- A parser records the bodies that run if the rules do. -/
theorem Parser.watch_records {call : (rule : Rule) → Watch rule.Result}
    (h : ∀ rule, (call rule).Records input) (parser : Parser α) :
    (parser.watch call).Records input :=
  parser.watch_obeys Watched.law_records h

end Offside.Packrat
