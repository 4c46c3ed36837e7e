import Mathlib.Data.Finset.Prod
import Mathlib.Data.Finset.Image
import Offside.Proofs.Grammar.Remembering
import Offside.Proofs.Grammar.Rollback
import Offside.Proofs.Grammar.Watching
import Offside.Proofs.Packrat.Bodies

/-!
# Counting the bodies that run

A question that finds no remembered result runs the body of a rule, and counts as a miss. In the
midst of a run the misses outnumber the remembered results by the rules that are running, and
nothing is remembered of those (`Pending`). Guarded rules keep this, and rules answer as guarded
rules do, so that between runs there are as many results as misses. Every body that is seen to run
is a miss, and no result is new without one (`Ran`), so that each body that ever ran has left its
own result and ran only once (`Ran.perm`). What is asked lies between the first token and the end,
and in the column of a token or in none (`Enclosed`), which bounds the number of results of one run
(`parse_misses`).
-/

namespace Offside.Grammar

open Packrat

variable (tokens : Array Token)

/-! ### Guarded rules that remember -/

section Guarded

variable {Keeps : List Key → Table → Prop}

/-- Guarded rules that remember agree with those that do not, if the invariants of the keys under
which rules are running fit together. -/
theorem guardedCall_agrees
    (hkeeps : ∀ {active key}, key ∉ active →
      Remembers tokens (Keeps active) (Keeps (key :: active)) key)
    (depth : Nat) (active : List Key) (rule : Rule) :
    Step.Agrees tokens true (Keeps active) (guardedCall depth active rule)
      (guardedCall depth active rule) := by
  induction depth generalizing active rule with
  | zero => exact fun _ _ _ ↦ .exhausted _
  | succ depth ih =>
    intro s t like
    rw [guardedCall_succ, like.position, like.indent]
    split
    · exact .exhausted _
    · next hfresh =>
      refine (hkeeps hfresh).agree tokens like (fun hne ↦ ?_) fun table keeps ↦ ?_
      · have happrox := (guardedCall_approximates ⟨tokens, false⟩ (depth + 1) active rule) s
        rw [guardedCall_succ, like.position, like.indent, if_neg hfresh] at happrox
        have heq := happrox.resolve_left hne
        rw [heq] at hne ⊢
        exact call_eq_parse tokens hne
      · have hrun := (production rule).run_agrees (ih (⟨rule, t.position, t.indent⟩ :: active)) s
          { t with table } ⟨like.position, like.indent, keeps⟩
        convert hrun using 1
        exact if_neg hfresh

/-- A guarded parser stays within the bound and answers as the parser does, with whatever sound
tables remember. -/
theorem guardedCall_run (memoize : Bool) {α : Type} {parser : Parser α}
    (hgrounded : parser.Grounded ⟨tokens, false⟩ (Moves ⟨tokens, false⟩)) {s : State}
    (hsound : Sound tokens s.table) :
    parser.run (guardedCall (depthBound ⟨tokens, memoize⟩) []) ⟨tokens, memoize⟩ s ≠
        .error .exhausted ∧
      parser.run (guardedCall (depthBound ⟨tokens, memoize⟩) []) ⟨tokens, memoize⟩ s =
        parse parser ⟨tokens, memoize⟩ s := by
  have hsettles : parser.run (guardedCall (depthBound ⟨tokens, memoize⟩) []) ⟨tokens, memoize⟩ s ≠
      .error .exhausted := by
    have hrules (rule : Rule) (m : State) :
        (guardedCall (depthBound ⟨tokens, false⟩) [] rule).Settles ⟨tokens, false⟩ m :=
      guardedCall_settles tokens (room_lt_depthBound ⟨tokens, false⟩ rule m.position) nofun
    change parser.run (guardedCall (depthBound ⟨tokens, false⟩) []) _ s ≠ _
    generalize depthBound ⟨tokens, false⟩ = depth at hrules
    have hslow : (parser.run (guardedCall depth [])).Settles ⟨tokens, false⟩ s :=
      Parser.run_settles (guardedCall_agrees_self tokens depth [])
        (fun _ _ _ _ ↦ guardedCall_moves tokens) Moves.within Moves.lt parser hgrounded
        (parser.startsAmong_all sure)
          ⟨fun rule m _ _ ↦ hrules rule m, fun rule m _ _ ↦ hrules rule m⟩
    cases memoize with
    | false => exact hslow
    | true =>
      have hagrees := guardedCall_agrees tokens (fun _ ↦ remembers_sound tokens _) depth []
      exact (parser.run_agrees hagrees s s ⟨rfl, rfl, hsound⟩).ne_exhausted hslow
  exact ⟨hsettles, (parser.run_approximates
    (guardedCall_approximates ⟨tokens, memoize⟩ _ []) s).resolve_left hsettles⟩

/-- What guarded rules keep is kept between runs. -/
theorem call_keeps
    (hkeeps : ∀ {active key}, key ∉ active →
      Remembers tokens (Keeps active) (Keeps (key :: active)) key)
    (hsound : ∀ {table}, Keeps [] table → Sound tokens table) (rule : Rule) :
    (call (depthBound ⟨tokens, true⟩) rule).Keeps (fun s s' ↦ Keeps [] s.table → Keeps [] s'.table)
      ⟨tokens, true⟩ := by
  intro s s' outcome h hs
  have hanswer : guardedCall (depthBound ⟨tokens, true⟩) [] rule ⟨tokens, true⟩ s =
      .ok (outcome, s') :=
        (guardedCall_run tokens true (grounded_rule tokens rule) (hsound hs)).2.trans h
  have hslow : guardedCall (depthBound ⟨tokens, true⟩) [] rule ⟨tokens, false⟩ s ≠
      .error .exhausted :=
    guardedCall_settles tokens (room_lt_depthBound ⟨tokens, false⟩ rule s.position) nofun
  have hagree := guardedCall_agrees tokens hkeeps (depthBound ⟨tokens, true⟩) [] rule s s
    ⟨rfl, rfl, hs⟩
  rw [hanswer] at hagree
  exact (hagree.eq_of_ok hslow).2.2

end Guarded

/-! ### Misses and results -/

/-- Each rule that was ever asked for in vain has left a result, but for those that are running
under the active keys. -/
structure Pending (active : List Key) (table : Table) : Prop where
  sound : Sound tokens table
  count : table.size + active.length = table.misses
  absent : ∀ key ∈ active, table.entries[key]? = none

private theorem pending_empty : Pending tokens [] .empty := ⟨sound_empty tokens, rfl, nofun⟩

/-- A rule that runs is one more miss, and its result is one more when it has run. -/
theorem remembers_pending {active : List Key} {key : Key} (hfresh : key ∉ active) :
    Remembers tokens (Pending tokens active) (Pending tokens (key :: active)) key where
  sound h := h.sound
  hit h := ⟨h.sound, h.count, h.absent⟩
  miss h hnone :=
    ⟨h.sound, congrArg (· + 1) h.count, List.forall_mem_cons.2 ⟨hnone, h.absent⟩⟩
  store {table _ _} h hanswer := by
    obtain ⟨hnone, habsent⟩ := List.forall_mem_cons.1 h.absent
    refine ⟨h.sound.store tokens key hanswer, ?_, fun other hother ↦ ?_⟩
    · have hcount := h.count
      rw [List.length_cons, ← Nat.add_assoc, Nat.add_right_comm] at hcount
      rwa [Table.size_store, if_pos hnone]
    · have hne : ¬(other = key ∧ table.entries[key]? = none) := fun hkey ↦ hfresh (hkey.1 ▸ hother)
      rw [Table.getElem?_store, if_neg hne]
      exact habsent other hother

/-- The tables that runs fill are sound. -/
theorem Filled.sound {memoize : Bool} {table : Table} (h : Filled ⟨tokens, memoize⟩ table) :
    Sound tokens table := by
  induction h with
  | empty => exact sound_empty tokens
  | run parser _ hrun ih =>
    refine parser.run_keeps (frame_table (Sound tokens)) (fun rule s s' outcome h hs ↦ ?_) hrun ih
    have hagree := call_agrees tokens memoize (depthBound ⟨tokens, memoize⟩) rule s s ⟨rfl, rfl, hs⟩
    rw [h] at hagree
    exact (hagree.eq_of_ok
      (call_settles tokens (room_lt_depthBound ⟨tokens, memoize⟩ rule s.position))).2.2

/-- In tables that runs fill each miss has left its result. -/
theorem Filled.size_eq_misses {table : Table} (h : Filled ⟨tokens, true⟩ table) :
    table.size = table.misses := by
  suffices Pending tokens [] table from this.count
  induction h with
  | empty => exact pending_empty tokens
  | run parser _ hrun ih =>
    exact parser.run_keeps (frame_table (Pending tokens []))
      (call_keeps tokens (remembers_pending tokens) Pending.sound) hrun ih

/-! ### The bodies that ran -/

/-- The tables that watched runs fill, and the keys of the bodies that ran for them, in the order in
which they began. -/
inductive Ran (input : Input) : Table → List Key → Prop where
  | empty : Ran input .empty []
  | run {α : Type} (parser : Parser α) {s s' : State} {outcome : Outcome α} {keys : List Key} :
      Ran input s.table keys → (watch parser input s).answer = .ok (outcome, s') →
        Ran input s'.table (keys ++ (watch parser input s).bodies)

private theorem records_watchCall (depth : Nat) (rule : Rule) :
    (watchCall depth rule).Records ⟨tokens, true⟩ := by
  induction depth generalizing rule with
  | zero => exact fun s ↦ Watched.records_fault _
  | succ depth ih => exact Watch.records_remembered rfl rule (Parser.watch_records ih _)

/-- A parse that remembers records the bodies that run. -/
theorem watch_records {α : Type} (parser : Parser α) :
    (watch parser).Records ⟨tokens, true⟩ :=
  fun s ↦ parser.watch_records (records_watchCall tokens (depthBound ⟨tokens, true⟩)) s

/-- Runs are watched without changing what they fill. -/
theorem filled_iff_ran {input : Input} {table : Table} :
    Filled input table ↔ ∃ keys, Ran input table keys := by
  constructor
  · intro h
    induction h with
    | empty => exact ⟨[], .empty⟩
    | run parser _ hrun ih =>
      obtain ⟨keys, hran⟩ := ih
      exact ⟨_, .run parser hran ((watch_answer parser input _).trans hrun)⟩
  · rintro ⟨keys, h⟩
    induction h with
    | empty => exact .empty
    | run parser _ hrun ih => exact .run parser ih ((watch_answer parser input _).symm.trans hrun)

/-- A table has grown by the bodies that ran for it. -/
theorem Ran.grows {table : Table} {keys : List Key} (h : Ran ⟨tokens, true⟩ table keys) :
    Table.empty.Grows keys table := by
  induction h with
  | empty => exact .refl .empty
  | run parser _ hrun ih => exact ih.trans (watch_records tokens parser _ hrun)

private theorem nodup_keys (table : Table) : table.entries.keys.Nodup :=
  table.entries.distinct_keys.imp fun {key other} hne heq ↦ hne (by
    rw [heq]
    exact Std.ReflCmp.compare_self)

/-- The bodies that ran are those whose results are remembered, each of them once: there are no more
results than bodies and, since no miss is lost, as many. -/
theorem Ran.perm {table : Table} {keys : List Key} (h : Ran ⟨tokens, true⟩ table keys) :
    table.entries.keys.Perm keys := by
  have hgrows := h.grows
  have hsubset : table.entries.keys ⊆ keys := fun key hkey ↦
    (hgrows.entries key (Std.TreeMap.mem_keys.1 hkey)).resolve_left Std.TreeMap.not_mem_emptyc
  refine (nodup_keys table).subperm hsubset |>.perm_of_length_le ?_
  have hsize : table.size = table.misses := (filled_iff_ran.2 ⟨keys, h⟩).size_eq_misses
  rw [hgrows.misses, Table.size] at hsize
  rw [Std.TreeMap.length_keys, hsize]
  exact Nat.le_add_left ..

/-! ### Keys of one run -/

/-- The columns in which tokens stand. -/
def columns : Finset Nat := (tokens.toList.filterMap (·.location.column?)).toFinset

/-- The state stands between the first token and the end, in blocks that tokens have opened, and so
did all rules whose results it remembers. -/
structure Enclosed (s : State) : Prop where
  position : s.position ≤ tokens.size
  blocks : ∀ column ∈ s.blocks, column ∈ columns tokens
  entries : ∀ (key : Key) (entry : Entry), s.table.entries[key]? = some entry →
    key.position ≤ tokens.size ∧ key.indent ∈ insert 0 (columns tokens) ∧ entry.stop ≤ tokens.size

private theorem enclosed_start : Enclosed tokens .start :=
  ⟨Nat.zero_le _, nofun, fun key entry h ↦ by simp [State.start, Table.empty] at h⟩

private theorem Enclosed.indent {s : State} (h : Enclosed tokens s) :
    s.indent ∈ insert 0 (columns tokens) := by
  unfold State.indent
  cases hblocks : s.blocks with
  | nil => exact Finset.mem_insert_self 0 _
  | cons column outer =>
    exact Finset.mem_insert_of_mem (h.blocks column (hblocks ▸ List.mem_cons_self))

private theorem mem_columns {memoize : Bool} {p column : Nat}
    (h : (Input.tokenAt ⟨tokens, memoize⟩ p).location.column? = some column) :
    column ∈ columns tokens := by
  unfold Input.tokenAt at h
  dsimp only at h
  cases htoken : tokens[p]? with
  | none =>
    rw [htoken] at h
    cases h
  | some token =>
    rw [htoken] at h
    exact List.mem_toFinset.2 (List.mem_filterMap.2
      ⟨token, Array.mem_toList_iff.2 (Array.mem_of_getElem? htoken), h⟩)

/-- Runs stay enclosed. -/
theorem frame_enclosed {memoize : Bool} :
    Frame ⟨tokens, memoize⟩ fun s s' ↦ Enclosed tokens s → Enclosed tokens s' where
  refl _ := id
  trans h h' := h' ∘ h
  advanced s h := by
    unfold State.advance
    split
    · next hlt => exact ⟨hlt, h.blocks, h.entries⟩
    · exact h
  back h hs := ⟨hs.position, (h hs).blocks, (h hs).entries⟩
  inside {s m column} hcolumn h hs := by
    have hopening := (Input.within_lineEnds ⟨tokens, memoize⟩ s.position).2
    have hm := h ⟨Nat.le_trans hopening (Nat.max_le.2 ⟨hs.position, Nat.le_refl _⟩),
      List.forall_mem_cons.2 ⟨mem_columns tokens hcolumn, hs.blocks⟩, hs.entries⟩
    exact ⟨hm.position, fun column hmem ↦ hm.blocks column (List.mem_of_mem_tail hmem), hm.entries⟩

/-- Counting a question leaves a state enclosed. -/
theorem Enclosed.counted {s : State} (h : Enclosed tokens s) {table : Table}
    (htable : table.entries = s.table.entries) : Enclosed tokens { s with table } :=
  ⟨h.position, h.blocks, fun key entry hentry ↦ h.entries key entry (htable ▸ hentry)⟩

/-- The result of a rule that began at an enclosed place may be stored. -/
theorem Enclosed.stored {s : State} (h : Enclosed tokens s) {key : Key}
    (hposition : key.position ≤ tokens.size) (hindent : key.indent ∈ insert 0 (columns tokens))
    {family : Family} {outcome : Outcome family.Carrier} :
    Enclosed tokens { s with table := s.table.store key outcome s.position } := by
  refine ⟨h.position, h.blocks, fun other entry hentry ↦ ?_⟩
  rw [Table.getElem?_store] at hentry
  split at hentry
  · next hkey =>
    obtain ⟨rfl, -⟩ := hkey
    cases hentry
    exact ⟨hposition, hindent, h.position⟩
  · exact h.entries other entry hentry

/-- Rules stay enclosed, and so do the keys of what they remember. -/
theorem call_enclosed {memoize : Bool} (depth : Nat) (rule : Rule) :
    (call depth rule).Keeps (fun s s' ↦ Enclosed tokens s → Enclosed tokens s')
      ⟨tokens, memoize⟩ := by
  induction depth generalizing rule with
  | zero => exact fun _ _ _ h ↦ nomatch h
  | succ depth ih =>
    intro s s' outcome h hs
    have hrun := (production rule).run_keeps (frame_enclosed tokens) ih
    unfold call Step.remembered at h
    dsimp only at h
    split at h
    · split at h
      · cases h
      · next outcome stop table hlookup =>
        cases h
        have hstop := (hs.entries _ _ (Table.getElem?_of_lookup hlookup)).2.2
        exact ⟨hstop, hs.blocks, (hs.counted tokens (Table.entries_of_lookup hlookup)).entries⟩
      · next table hlookup =>
        split at h
        · cases h
        · next hbody =>
          cases h
          have hreached := hrun hbody (hs.counted tokens (Table.entries_of_lookup hlookup))
          exact hreached.stored tokens hs.position (hs.indent tokens)
    · exact hrun h hs

/-- The keys that an enclosed state may remember. -/
def keysWithin : Finset Key :=
  (Rule.all.toFinset ×ˢ Finset.range (tokens.size + 1) ×ˢ insert 0 (columns tokens)).image
    fun (rule, position, indent) ↦ ⟨rule, position, indent⟩

private theorem card_keysWithin_le :
    (keysWithin tokens).card ≤ 24 * (tokens.size + 1) * ((columns tokens).card + 1) := by
  refine Finset.card_image_le.trans ?_
  rw [Finset.card_product, Finset.card_product, Finset.card_range, ← Nat.mul_assoc]
  exact Nat.mul_le_mul (Nat.mul_le_mul_right _ Rule.all.toFinset_card_le) (Finset.card_insert_le ..)

/-- An enclosed state remembers at most one result for each key. -/
theorem Enclosed.size_le {s : State} (h : Enclosed tokens s) :
    s.table.size ≤ (keysWithin tokens).card := by
  have hsize : s.table.size = s.table.entries.keys.toFinset.card := by
    rw [List.toFinset_card_of_nodup (nodup_keys s.table), Std.TreeMap.length_keys]
    rfl
  rw [hsize]
  refine Finset.card_le_card fun key hkey ↦ ?_
  have hmem : key ∈ s.table.entries := Std.TreeMap.mem_keys.1 (List.mem_toFinset.1 hkey)
  rw [Std.TreeMap.mem_iff_isSome_getElem?, Option.isSome_iff_exists] at hmem
  obtain ⟨entry, hentry⟩ := hmem
  obtain ⟨hposition, hindent, -⟩ := h.entries key entry hentry
  exact Finset.mem_image.2 ⟨(key.rule, key.position, key.indent), Finset.mem_product.2
    ⟨List.mem_toFinset.2 key.rule.mem_all,
      Finset.mem_product.2 ⟨Finset.mem_range.2 (Nat.lt_succ_of_le hposition), hindent⟩⟩, rfl⟩

/-- Each body that runs leaves a result of its own: after any runs on one table that remembers,
there are as many results as misses, since no rule begins again where it is running. The runs may be
watched, and then no body is seen to begin twice under one key, in one run or in several. The misses
of a first run are bounded by the rules, the positions and the columns. -/
theorem parse_misses :
    (∀ table, Filled ⟨tokens, true⟩ table → table.size = table.misses) ∧
      (∀ table, Filled ⟨tokens, true⟩ table ↔ ∃ keys, Ran ⟨tokens, true⟩ table keys) ∧
      (∀ table keys, Ran ⟨tokens, true⟩ table keys →
        keys.Nodup ∧ keys.length = table.misses ∧ ∀ key, key ∈ keys ↔ key ∈ table.entries) ∧
      (∀ (s : State) (rule : Rule), Filled ⟨tokens, true⟩ s.table →
        guardedCall (depthBound ⟨tokens, true⟩) [] rule ⟨tokens, true⟩ s =
          parse (.rule rule) ⟨tokens, true⟩ s) ∧
      ∀ {α : Type} (parser : Parser α) (outcome : Outcome α) (s : State),
        parse parser ⟨tokens, true⟩ .start = .ok (outcome, s) →
          s.table.misses ≤ 24 * (tokens.size + 1) * ((columns tokens).card + 1) := by
  refine ⟨fun _ hfilled ↦ hfilled.size_eq_misses, fun _ ↦ filled_iff_ran, fun table keys hran ↦ ?_,
    fun s rule hfilled ↦ ?_, fun parser outcome s h ↦ ?_⟩
  · have hperm := hran.perm
    have hmisses := hran.grows.misses
    refine ⟨hperm.nodup_iff.1 (nodup_keys table), (hmisses.trans (Nat.zero_add _)).symm,
      fun key ↦ ?_⟩
    rw [← hperm.mem_iff, Std.TreeMap.mem_keys]
  · exact (guardedCall_run tokens true (grounded_rule tokens rule) hfilled.sound).2
  · have hfilled : Filled ⟨tokens, true⟩ s.table := .run parser .empty h
    have henclosed := parser.run_keeps (frame_enclosed tokens) (call_enclosed tokens _) h
      (enclosed_start tokens)
    rw [← hfilled.size_eq_misses]
    exact (henclosed.size_le tokens).trans (card_keysWithin_le tokens)

-- The tokens of a path with one property, in the column of an open block.
private def propertyTokens : Array Token :=
  #[⟨⟨.identifier, .text "a"⟩, .concrete "f" 1 3 2⟩, ⟨⟨.period, .none⟩, .concrete "f" 1 4 3⟩,
    ⟨⟨.identifier, .text "b"⟩, .concrete "f" 1 5 4⟩, ⟨⟨.endOfInput, .none⟩, .concrete "f" 1 6 5⟩]

/-- A member is sought in vain, and then a path is found inside a block. -/
theorem parse_misses_path :
    ∃ outcome s outcome' s',
      parse (.rule .memberDeclaration) ⟨propertyTokens, true⟩ .start = .ok (outcome, s) ∧
      parse (.rule .path) ⟨propertyTokens, true⟩ ⟨0, [3], s.table⟩ = .ok (outcome', s') ∧
      Filled ⟨propertyTokens, true⟩ s'.table ∧ s'.table.size = s'.table.misses ∧
      (∃ keys, Ran ⟨propertyTokens, true⟩ s'.table keys ∧ keys.Nodup ∧
        keys.length = s'.table.misses) ∧
      guardedCall (depthBound ⟨propertyTokens, true⟩) [] .path ⟨propertyTokens, true⟩
          ⟨0, [3], s.table⟩ =
        .ok (outcome', s') ∧
      s.table.misses ≤ 24 * 5 * ((columns propertyTokens).card + 1) := by
  obtain ⟨outcome, s, hfirst, outcome', s', hsecond⟩ : ∃ outcome s,
      parse (.rule .memberDeclaration) ⟨propertyTokens, true⟩ .start = .ok (outcome, s) ∧
        ∃ outcome' s', parse (.rule .path) ⟨propertyTokens, true⟩ ⟨0, [3], s.table⟩ =
          .ok (outcome', s') := ⟨_, _, rfl, _, _, rfl⟩
  have hs : Filled ⟨propertyTokens, true⟩ s.table := .run _ .empty hfirst
  have hs' : Filled ⟨propertyTokens, true⟩ s'.table := .run _ (s := ⟨0, [3], s.table⟩) hs hsecond
  obtain ⟨hsize, hran, honce, hguarded, hmisses⟩ := parse_misses propertyTokens
  obtain ⟨keys, hkeys⟩ := (hran s'.table).1 hs'
  obtain ⟨hnodup, hlength, -⟩ := honce s'.table keys hkeys
  exact ⟨outcome, s, outcome', s', hfirst, hsecond, hs', hsize _ hs',
    ⟨keys, hkeys, hnodup, hlength⟩, (hguarded ⟨0, [3], s.table⟩ .path hs).trans hsecond,
    hmisses _ _ _ hfirst⟩

end Offside.Grammar
