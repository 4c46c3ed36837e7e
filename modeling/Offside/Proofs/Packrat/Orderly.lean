import Offside.Proofs.Packrat.Law

/-!
# Runs in order

What is seen of a run is in order (`Watched.Orderly`) if the run leaves the open blocks as they are,
if its parts begin inside the blocks that were open and open further ones only in deeper columns,
and if behind a part that is left with a fatal failure nothing is seen but that failure being
passed on. Order is a law of watched runs (`Watched.law_orderly`), because what goes on from a fatal
failure has no part and fails in the same way (`Watched.Passes`).
-/

namespace Offside.Packrat

variable {α β : Type} {input : Input} {s : State}

/-! ### The columns of the open blocks -/

/-- The columns of the open blocks from the outermost to the innermost, behind the column zero of
the whole input. -/
def State.columns (s : State) : List Nat := 0 :: s.blocks.reverse

private theorem State.columns_openBlock (s : State) (column : Nat) :
    (s.openBlock column).columns = s.columns ++ [column] := by
  simp [State.columns, State.openBlock]

/-- The innermost block stands deepest. -/
theorem State.le_indent (h : s.columns.Pairwise (· < ·)) {column : Nat}
    (hcolumn : column ∈ s.columns) : column ≤ s.indent := by
  obtain ⟨position, blocks, table⟩ := s
  cases blocks with
  | nil => exact Nat.le_of_eq (List.mem_singleton.1 hcolumn)
  | cons innermost outer =>
    have hsplit : State.columns ⟨position, innermost :: outer, table⟩ =
        (0 :: outer.reverse) ++ [innermost] := by simp [State.columns]
    rw [hsplit] at h hcolumn
    obtain houter | hinnermost := List.mem_append.1 hcolumn
    · exact Nat.le_of_lt ((List.pairwise_append.1 h).2.2 _ houter _ (List.mem_singleton_self _))
    · exact Nat.le_of_eq (List.mem_singleton.1 hinnermost)

/-- A block in a column deeper than the innermost block keeps the columns increasing. -/
theorem State.columns_openBlock_increasing {column : Nat} (h : s.columns.Pairwise (· < ·))
    (hcolumn : s.indent < column) : (s.openBlock column).columns.Pairwise (· < ·) := by
  rw [State.columns_openBlock]
  refine List.pairwise_append.2 ⟨h, List.pairwise_singleton _ _, fun outer houter inner hinner ↦ ?_⟩
  rw [List.mem_singleton.1 hinner]
  exact Nat.lt_of_le_of_lt (State.le_indent h houter) hcolumn

/-! ### Order -/

namespace Watched

/-- No part of the run goes on behind a fatal failure: what is seen behind the first one is that
failure being passed on, up to the answer of the run. -/
def StopsAtFatal (run : Watched α) : Prop :=
  ∃ front back, run.events = front ++ back ∧ (∀ failure, .leave (.fatal failure) ∉ front) ∧
    (back = [] ∨ ∃ failure s', (∀ event ∈ back, event = .leave (.fatal failure)) ∧
      run.answer = .ok (.fatal failure, s'))

/-- Behind each fatal failure only that failure is seen, and the run answers it. -/
theorem StopsAtFatal.after_fatal {run : Watched α} (h : run.StopsAtFatal)
    {before after : List Event}
    {failure : Failure} (hevents : run.events = before ++ .leave (.fatal failure) :: after) :
    (∀ event ∈ after, event = .leave (.fatal failure)) ∧
      ∃ s', run.answer = .ok (.fatal failure, s') := by
  obtain ⟨front, back, hsplit, hfront, hback⟩ := h
  have hafter : ∃ more, back = more ++ .leave (.fatal failure) :: after := by
    rw [hsplit] at hevents
    obtain ⟨more, -, hmore⟩ | ⟨more, hmore, hrest⟩ := List.append_eq_append_iff.1 hevents
    · exact ⟨more, hmore⟩
    · cases more with
      | nil => exact ⟨[], hrest.symm⟩
      | cons event more =>
        obtain ⟨rfl, -⟩ := List.cons.inj hrest
        exact absurd (hmore ▸ List.mem_append_right _ List.mem_cons_self) (hfront failure)
  obtain ⟨more, rfl⟩ := hafter
  obtain hnil | ⟨other, s', hother, hanswer⟩ := hback
  · simp at hnil
  · have hfailure := hother _ (List.mem_append_right _ List.mem_cons_self)
    cases hfailure
    exact ⟨fun event hevent ↦ hother event
      (List.mem_append_right _ (List.mem_cons_of_mem _ hevent)), s', hanswer⟩

/-- What is seen of a run that began in a state is in order. -/
structure Orderly (s : State) (run : Watched α) : Prop where
  blocks : ∀ {outcome s'}, run.answer = .ok (outcome, s') → s'.blocks = s.blocks
  nested : ∀ {m}, .enter m ∈ run.events →
    s.columns <+: m.columns ∧ (s.columns.Pairwise (· < ·) → m.columns.Pairwise (· < ·))
  stops : run.StopsAtFatal

/-- What has no part is in order if it leaves the open blocks as they are. -/
theorem orderly_silent {answer : Except Fault (Outcome α × State)}
    (h : ∀ {outcome s'}, answer = .ok (outcome, s') → s'.blocks = s.blocks) :
    (silent answer).Orderly s where
  blocks := h
  nested hm := nomatch hm
  stops := ⟨[], [], rfl, fun _ ↦ List.not_mem_nil, .inl rfl⟩

/-- An outcome without any part, where the blocks are as they were. -/
theorem orderly_stay {outcome : Outcome α} {m : State} (hm : m.blocks = s.blocks) :
    (silent (.ok (outcome, m))).Orderly s := by
  refine orderly_silent fun h ↦ ?_
  cases h
  exact hm

/-- Order is a matter of the open blocks alone. -/
theorem Orderly.of_blocks {m : State} {run : Watched α} (h : run.Orderly m)
    (hm : m.blocks = s.blocks) : run.Orderly s where
  blocks hanswer := (h.blocks hanswer).trans hm
  nested hevent := by
    have hcolumns : m.columns = s.columns := by rw [State.columns, hm, State.columns]
    rw [← hcolumns]
    exact h.nested hevent
  stops := h.stops

private theorem StopsAtFatal.resume {run : Watched α} {next : Outcome α → State → Watched β}
    (h : run.StopsAtFatal) (hpasses : Passes next)
    (hnext : ∀ outcome m, run.answer = .ok (outcome, m) → (next outcome m).StopsAtFatal) :
    (run.resume next).StopsAtFatal := by
  obtain ⟨front, back, hevents, hfront, hback⟩ := h
  unfold StopsAtFatal
  rw [events_resume, answer_resume]
  cases hanswer : run.answer with
  | error fault =>
    refine ⟨front, back, by simp [hevents], hfront, .inl ?_⟩
    obtain hnil | ⟨failure, s', -, hfatal⟩ := hback
    · exact hnil
    · rw [hanswer] at hfatal
      cases hfatal
  | ok result =>
    obtain ⟨outcome, m⟩ := result
    obtain rfl | ⟨failure, s', hfatal, hfailed⟩ := hback
    · obtain ⟨front', back', hevents', hfront', hback'⟩ := hnext outcome m hanswer
      refine ⟨front ++ front', back', by simp [hevents, hevents'], fun failure hmem ↦ ?_, hback'⟩
      exact (List.mem_append.1 hmem).elim (hfront failure) (hfront' failure)
    · rw [hanswer] at hfailed
      cases hfailed
      obtain ⟨m', hm'⟩ := hpasses failure m
      simp only [hm', silent]
      exact ⟨front, back, by simp [hevents], hfront, .inr ⟨failure, m', hfatal, rfl⟩⟩

/-- A run that goes on in order is in order, as long as it does not go on from a fatal failure. -/
theorem Orderly.resume {run : Watched α} {next : Outcome α → State → Watched β}
    (h : run.Orderly s) (hpasses : Passes next)
    (hnext : ∀ outcome m, m.blocks = s.blocks → (next outcome m).Orderly s) :
    (run.resume next).Orderly s := by
  have hlater {outcome : Outcome α} {m : State} (hanswer : run.answer = .ok (outcome, m)) :
      (next outcome m).Orderly s := hnext outcome m (h.blocks hanswer)
  refine ⟨fun hanswer ↦ ?_, fun hevent ↦ ?_, h.stops.resume hpasses fun _ _ hm ↦ (hlater hm).stops⟩
  · rw [answer_resume] at hanswer
    split at hanswer
    · cases hanswer
    · next hfirst => exact (hlater hfirst).blocks hanswer
  · rw [events_resume] at hevent
    obtain hevent | hevent := List.mem_append.1 hevent
    · exact h.nested hevent
    · split at hevent
      · cases hevent
      · next hfirst => exact (hlater hfirst).nested hevent

/-- What is in order inside a block that stands deep enough is in order outside, if closing the
block is all that follows. -/
theorem Orderly.close {run : Watched α} {next : Outcome α → State → Watched β} {column : Nat}
    (hcolumn : s.indent < column) (h : run.Orderly (s.openBlock column)) (hpasses : Passes next)
    (hnext : ∀ outcome m, m.blocks = column :: s.blocks → ∃ outcome' m',
      next outcome m = silent (.ok (outcome', m')) ∧ m'.blocks = s.blocks) :
    (run.resume next).Orderly s := by
  have hclosed {outcome : Outcome α} {m : State} (hanswer : run.answer = .ok (outcome, m)) :=
    hnext outcome m (h.blocks hanswer)
  refine ⟨fun hanswer ↦ ?_, fun hevent ↦ ?_, h.stops.resume hpasses fun outcome m hm ↦ ?_⟩
  · rw [answer_resume] at hanswer
    split at hanswer
    · cases hanswer
    · next hfirst =>
      obtain ⟨outcome', m', hnext, hblocks⟩ := hclosed hfirst
      rw [hnext] at hanswer
      cases hanswer
      exact hblocks
  · rw [events_resume] at hevent
    obtain hevent | hevent := List.mem_append.1 hevent
    · obtain ⟨hfront, hincreasing⟩ := h.nested hevent
      rw [State.columns_openBlock] at hfront
      exact ⟨(List.prefix_append _ _).trans hfront,
        fun hs ↦ hincreasing (State.columns_openBlock_increasing hs hcolumn)⟩
    · split at hevent
      · cases hevent
      · next hfirst =>
        obtain ⟨outcome', m', hnext, -⟩ := hclosed hfirst
        rw [hnext] at hevent
        cases hevent
  · obtain ⟨outcome', m', hnext, -⟩ := hclosed hm
    rw [hnext]
    exact ⟨[], [], rfl, fun _ ↦ List.not_mem_nil, .inl rfl⟩

/-- The exit of a part passes on the fatal failure of the part, and shows no other. -/
theorem StopsAtFatal.asPart {run : Watched α} (h : run.StopsAtFatal) :
    (run.asPart s).StopsAtFatal := by
  obtain ⟨front, back, hevents, hfront, hback⟩ := h
  have hentered (failure : Failure) : .leave (.fatal failure) ∉ Event.enter s :: front := by
    rintro (_ | ⟨_, hmem⟩)
    exact hfront failure hmem
  unfold Watched.asPart
  split
  · next hanswer =>
    refine ⟨.enter s :: front, back, by simp [hevents], hentered, .inl ?_⟩
    obtain hnil | ⟨failure, s', -, hfatal⟩ := hback
    · exact hnil
    · rw [hanswer] at hfatal
      cases hfatal
  · next outcome m hanswer =>
    obtain rfl | ⟨failure, s', hfatal, hfailed⟩ := hback
    · by_cases hfatal : ∃ failure, outcome = .fatal failure
      · obtain ⟨failure, rfl⟩ := hfatal
        refine ⟨.enter s :: front, [.leave (.fatal failure)], by simp [hevents, Outcome.map],
          hentered, .inr ⟨failure, m, fun event ↦ List.mem_singleton.1, rfl⟩⟩
      · refine ⟨(.enter s :: front) ++ [.leave (outcome.map fun _ ↦ ())], [], by simp [hevents], ?_,
          .inl rfl⟩
        intro failure hmem
        obtain hmem | hmem := List.mem_append.1 hmem
        · exact hentered failure hmem
        · have hleave := List.mem_singleton.1 hmem
          cases outcome with
          | fatal failure => exact hfatal ⟨failure, rfl⟩
          | ok | recoverable => cases hleave
    · rw [hanswer] at hfailed
      cases hfailed
      refine ⟨.enter s :: front, back ++ [.leave (.fatal failure)], by simp [hevents, Outcome.map],
        hentered, .inr ⟨failure, m, fun event hevent ↦ ?_, rfl⟩⟩
      exact (List.mem_append.1 hevent).elim (hfatal event) List.mem_singleton.1

/-- A run in order is a part in order. -/
theorem Orderly.asPart {run : Watched α} (h : run.Orderly s) : (run.asPart s).Orderly s where
  blocks hanswer := h.blocks ((answer_asPart s run).symm.trans hanswer)
  nested {m} hm := by
    have hself : s.columns <+: s.columns ∧
        (s.columns.Pairwise (· < ·) → s.columns.Pairwise (· < ·)) := ⟨List.prefix_rfl, id⟩
    have hevent : m = s ∨ .enter m ∈ run.events := by
      unfold Watched.asPart at hm
      split at hm <;> simpa using hm
    obtain rfl | hm := hevent
    · exact hself
    · exact h.nested hm
  stops := h.stops.asPart

/-- The body of a rule runs in order if what is seen of it does. -/
theorem Orderly.asBody {run : Watched α} (h : run.Orderly s) (key : Key) :
    (run.asBody key).Orderly s where
  blocks hanswer := h.blocks hanswer
  nested hm := by
    obtain hbody | hm := List.mem_cons.1 hm
    · cases hbody
    · exact h.nested hm
  stops := by
    obtain ⟨front, back, hevents, hfront, hback⟩ := h.stops
    refine ⟨.body key :: front, back, congrArg (_ :: ·) hevents, fun failure hmem ↦ ?_, hback⟩
    obtain hbody | hmem := List.mem_cons.1 hmem
    · cases hbody
    · exact hfront failure hmem

/-- Order is a law of watched runs. -/
theorem law_orderly : Law Orderly where
  stay hblocks _ := orderly_stay hblocks
  fault _ := orderly_silent nofun
  moved h := h.of_blocks rfl
  resume h hpasses hnext :=
    h.resume hpasses fun outcome m hm ↦ (hnext outcome m).of_blocks hm
  part h := h.asPart
  close hcolumn h hpasses hnext := h.close hcolumn hpasses fun outcome m hm ↦ by
    obtain ⟨outcome', m', hsilent, hblocks, -⟩ := hnext outcome m
    exact ⟨outcome', m', hsilent, by rw [hblocks, hm, List.tail_cons]⟩

end Watched

/-! ### Watches in order -/

open Watched

namespace Watch

/-- Whatever state it begins in, the watch sees a run in order. -/
def Orderly (input : Input) (watch : Watch α) : Prop := ∀ s, (watch input s).Orderly s

/-- A rule that is remembered runs in order if its body does. -/
theorem orderly_remembered (rule : Rule) {a : Watch rule.Result} (h : a.Orderly input) :
    (remembered rule a).Orderly input := by
  intro s
  unfold remembered
  dsimp only
  split
  · split
    · exact orderly_silent nofun
    · exact orderly_stay rfl
    · next table _ =>
      have hrun : (a input { s with table }).Orderly s := (h { s with table }).of_blocks rfl
      exact (hrun.asBody _).resume (fun failure m ↦ ⟨_, rfl⟩) fun outcome m hm ↦ orderly_stay hm
  · exact (h s).asBody _

end Watch

/-- A parser is seen to run in order if the rules are. -/
theorem Parser.watch_orderly {call : (rule : Rule) → Watch rule.Result}
    (h : ∀ rule, (call rule).Orderly input) (parser : Parser α) :
    (parser.watch call).Orderly input :=
  parser.watch_obeys Watched.law_orderly h

end Offside.Packrat
