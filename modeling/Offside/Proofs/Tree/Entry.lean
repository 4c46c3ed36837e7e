import Mathlib.Data.List.Induction
import Mathlib.Data.List.Nodup
import Offside.Entry

/-!
# What keeps a program from being run

The search for names that are declared twice remembers the names it has passed. It finds each item
whose name an earlier one has, in order, and with it the first item of the name (`repeats`). So the
errors of a program are known exactly (`Program.entryErrors_exact`): those of its names, scope by
scope, and then at most one of its entry. There are none if and only if the program can be run
(`Program.Runnable`).
-/

namespace Offside

/-! ### Names declared twice -/

section Names

variable {α : Type} (name : α → String)

/-- The items that have the name of an earlier one, in order, each with the first item of the
name. -/
def repeats (items : List α) : List (α × α) :=
  items.zipIdx.filterMap fun (later, i) ↦
    ((items.take i).find? fun item ↦ name item == name later).map (later, ·)

/-- One more item repeats a name or does not; those before it are reported as they were. -/
theorem repeats_append_singleton (items : List α) (last : α) :
    repeats name (items ++ [last]) = repeats name items ++
      ((items.find? fun item ↦ name item == name last).map (last, ·)).toList := by
  unfold repeats
  rw [List.zipIdx_append, List.filterMap_append]
  congr 1
  · refine List.filterMap_congr fun place hmem ↦ ?_
    obtain ⟨later, i⟩ := place
    have hlt : i < items.length := by simpa using List.snd_lt_of_mem_zipIdx hmem
    simp only [List.take_append_of_le_length (Nat.le_of_lt hlt)]
  · cases hfound : items.find? fun item ↦ name item == name last <;> simp [hfound]

/-- No item repeats a name if and only if all names differ. -/
theorem repeats_eq_nil_iff (items : List α) :
    repeats name items = [] ↔ (items.map name).Nodup := by
  induction items using List.reverseRecOn with
  | nil => simp [repeats]
  | append_singleton items last ih =>
    have hlast : ((items.find? fun item ↦ name item == name last).map (last, ·)).toList = [] ↔
        name last ∉ items.map name := by
      simp [Option.toList_eq_nil_iff]
    rw [repeats_append_singleton, List.append_eq_nil_iff, ih, hlast, List.map_append,
      List.map_singleton, ← List.concat_eq_append, List.nodup_concat, and_comm]

end Names

/-- One more declaration is found again if its name was seen before or stands among those passed
since. -/
theorem repeatedFrom_append_singleton (seen declared : List Declared) (last : Declared) :
    repeatedFrom seen (declared ++ [last]) = repeatedFrom seen declared ++
      (((seen.lookup last.1).or (declared.lookup last.1)).map (last, ·)).toList := by
  obtain ⟨name, location⟩ := last
  induction declared generalizing seen with
  | nil => cases hseen : seen.lookup name <;> simp [repeatedFrom, hseen]
  | cons first rest ih =>
    obtain ⟨other, place⟩ := first
    cases hname : name == other with
    | true =>
      obtain rfl := eq_of_beq hname
      cases hseen : seen.lookup name <;> simp [repeatedFrom, hseen, ih]
    | false =>
      cases hseen : seen.lookup other <;>
        simp [repeatedFrom, hseen, ih, List.lookup_cons, hname]

/-- The names that are found again are those of the items that repeat a name. -/
theorem repeatedNames_map {α : Type} (name : α → String) (locate : α → Location) (items : List α) :
    repeatedNames (items.map fun item ↦ (name item, locate item)) =
      (repeats name items).map fun (later, first) ↦
        ((name later, locate later), locate first) := by
  have hlookup (wanted : String) (items : List α) :
      (items.map fun item ↦ (name item, locate item)).lookup wanted =
        (items.find? fun item ↦ name item == wanted).map locate := by
    induction items with
    | nil => rfl
    | cons item items ih =>
      rw [List.map_cons, List.lookup_cons, List.find?_cons, ih, BEq.comm]
      cases name item == wanted <;> rfl
  induction items using List.reverseRecOn with
  | nil => rfl
  | append_singleton items last ih =>
    unfold repeatedNames at ih ⊢
    rw [List.map_append, List.map_singleton, repeatedFrom_append_singleton, ih,
      repeats_append_singleton, List.map_append, hlookup, List.lookup_nil, Option.none_or]
    cases items.find? fun item ↦ name item == name last <;> rfl

/-! ### The entry -/

/-- The item is the first one of the name. -/
def IsFirst {α : Type} (name : α → String) (wanted : String) (items : List α) (item : α) : Prop :=
  ∃ before after, items = before ++ item :: after ∧ name item = wanted ∧
    ∀ earlier ∈ before, name earlier ≠ wanted

namespace Program

/-- What is reported of the entry of a program: that there is no struct `Program`, that the first
one has no handler `Main`, or that its first `Main` has other parameters than `system`. -/
inductive EntryReport (program : Program) : Option EntryError → Prop where
  | missingProgram : (∀ struct ∈ program.structs, struct.name ≠ "Program") →
      EntryReport program (some (.missingProgram program.location))
  | missingMain {struct : Struct} : IsFirst Struct.name "Program" program.structs struct →
      (∀ handler ∈ struct.handlers, handler.name ≠ "Main") →
      EntryReport program (some (.missingMain struct.location))
  | invalidMainParameters {struct : Struct} {main : Handler} :
      IsFirst Struct.name "Program" program.structs struct →
      IsFirst Handler.name "Main" struct.handlers main →
      main.parameters.map (·.name) ≠ ["system"] →
      EntryReport program
        (some (.invalidMainParameters main.location (main.parameters.map (·.name))))
  | nothing {struct : Struct} {main : Handler} :
      IsFirst Struct.name "Program" program.structs struct →
      IsFirst Handler.name "Main" struct.handlers main →
      main.parameters.map (·.name) = ["system"] → EntryReport program none

/-- No name is declared twice in a scope, and a struct `Program` has a handler `Main` with exactly
one parameter, `system`. -/
structure Runnable (program : Program) : Prop where
  structs : (program.structs.map (·.name)).Nodup
  members : ∀ struct ∈ program.structs, (struct.members.map (·.name)).Nodup
  handlers : ∀ struct ∈ program.structs, (struct.handlers.map (·.name)).Nodup
  entry : ∃ struct ∈ program.structs, struct.name = "Program" ∧
    ∃ main ∈ struct.handlers, main.name = "Main" ∧
      ∃ parameter, main.parameters = [parameter] ∧ parameter.name = "system"

end Program

private theorem isFirst_of_find? {α : Type} {name : α → String} {wanted : String} {items : List α}
    {item : α} (h : items.find? (fun item ↦ name item == wanted) = some item) :
    IsFirst name wanted items item := by
  obtain ⟨hname, before, after, hitems, hbefore⟩ := List.find?_eq_some_iff_append.1 h
  exact ⟨before, after, hitems, by simpa using hname, by simpa using hbefore⟩

-- Where names differ, whichever item has a name is the first of it.
private theorem IsFirst.eq_of_nodup {α : Type} {name : α → String} {wanted : String}
    {items : List α} {first item : α} (h : IsFirst name wanted items first)
    (hnodup : (items.map name).Nodup) (hitem : item ∈ items) (hname : name item = wanted) :
    item = first := by
  obtain ⟨before, after, rfl, hfirst, -⟩ := h
  exact List.inj_on_of_nodup_map hnodup hitem (by simp) (hname.trans hfirst.symm)

namespace Program

/-- What the program reports of its entry. -/
theorem entryReport_entryError? (program : Program) :
    program.EntryReport program.entryError? := by
  unfold entryError? struct?
  split
  · next h => exact .missingProgram (by simpa using h)
  · next struct hstruct =>
    have hstruct := isFirst_of_find? hstruct
    unfold Struct.handler?
    split
    · next h => exact .missingMain hstruct (by simpa using h)
    · next main hmain =>
      have hmain := isFirst_of_find? hmain
      split
      · next hparameters => exact .nothing hstruct hmain hparameters
      · next hparameters => exact .invalidMainParameters hstruct hmain hparameters

private theorem entryError?_eq_none_of_runnable {program : Program} (h : program.Runnable) :
    program.entryError? = none := by
  obtain ⟨struct, hstruct, hprogram, main, hmain, hname, parameter, hparameters, hsystem⟩ := h.entry
  have hreport := program.entryReport_entryError?
  generalize program.entryError? = report at hreport ⊢
  cases hreport with
  | missingProgram hmissing => exact absurd hprogram (hmissing struct hstruct)
  | missingMain hfirst hmissing =>
    obtain rfl := hfirst.eq_of_nodup h.structs hstruct hprogram
    exact absurd hname (hmissing main hmain)
  | invalidMainParameters hfirst hfirstMain hinvalid =>
    obtain rfl := hfirst.eq_of_nodup h.structs hstruct hprogram
    obtain rfl := hfirstMain.eq_of_nodup (h.handlers struct hstruct) hmain hname
    exact absurd (by rw [hparameters, List.map_singleton, hsystem]) hinvalid
  | nothing => rfl

private theorem exists_entry {program : Program} (h : program.EntryReport none) :
    ∃ struct ∈ program.structs, struct.name = "Program" ∧
      ∃ main ∈ struct.handlers, main.name = "Main" ∧
        ∃ parameter, main.parameters = [parameter] ∧ parameter.name = "system" := by
  cases h with
  | @nothing struct main hfirst hfirstMain hparameters =>
    obtain ⟨before, after, hstructs, hprogram, -⟩ := hfirst
    obtain ⟨earlier, later, hhandlers, hname, -⟩ := hfirstMain
    obtain ⟨parameter, hsingle, hsystem⟩ := List.map_eq_singleton_iff.1 hparameters
    exact ⟨struct, by simp [hstructs], hprogram, main, by simp [hhandlers], hname, parameter,
      hsingle, hsystem⟩

private theorem structErrors_eq (program : Program) :
    program.structErrors = (repeats Struct.name program.structs).map fun (later, first) ↦
      .duplicateStruct later.location later.name first.location := by
  rw [structErrors, repeatedNames_map, List.map_map]
  rfl

private theorem itemErrors_eq (struct : Struct) :
    itemErrors struct =
      ((repeats Member.name struct.members).map fun (later, first) ↦
          .duplicateMember later.location struct.name later.name first.location) ++
        (repeats Handler.name struct.handlers).map fun (later, first) ↦
          .duplicateHandler later.location struct.name later.name first.location := by
  rw [itemErrors, repeatedNames_map, repeatedNames_map, List.map_map, List.map_map]
  rfl

/-- A program has no errors if and only if it can be run. In any case its errors are those of the
structs that repeat the name of an earlier one, in order and each with the first struct of the name,
then for each struct those of its members and those of its handlers that do so, and then what is
reported of the entry, if anything. -/
theorem entryErrors_exact (program : Program) :
    (program.entryErrors = [] ↔ program.Runnable) ∧
      ∃ report, program.EntryReport report ∧ program.entryErrors =
        ((repeats Struct.name program.structs).map fun (later, first) ↦
            .duplicateStruct later.location later.name first.location) ++
          (program.structs.flatMap fun struct ↦
            ((repeats Member.name struct.members).map fun (later, first) ↦
                .duplicateMember later.location struct.name later.name first.location) ++
              (repeats Handler.name struct.handlers).map fun (later, first) ↦
                .duplicateHandler later.location struct.name later.name first.location) ++
          report.toList := by
  have hitems : itemErrors = _ := funext itemErrors_eq
  refine ⟨?_, program.entryError?, program.entryReport_entryError?, ?_⟩
  · simp only [entryErrors, structErrors_eq, hitems, List.append_eq_nil_iff, List.map_eq_nil_iff,
      List.flatMap_eq_nil_iff, repeats_eq_nil_iff, Option.toList_eq_nil_iff]
    constructor
    · rintro ⟨⟨hnames, hdeclared⟩, hentry⟩
      have hreport := program.entryReport_entryError?
      rw [hentry] at hreport
      exact ⟨hnames, fun struct hmem ↦ (hdeclared struct hmem).1,
        fun struct hmem ↦ (hdeclared struct hmem).2, exists_entry hreport⟩
    · exact fun h ↦ ⟨⟨h.structs, fun struct hmem ↦ ⟨h.members struct hmem, h.handlers struct hmem⟩⟩,
        entryError?_eq_none_of_runnable h⟩
  · rw [entryErrors, structErrors_eq, hitems]

end Program

end Offside
