import Offside.Proofs.Canonical.Erasure
import Offside.Proofs.Grammar.Legibility
import Offside.Proofs.RoundTrip.Declarations

/-!
# Formatting programs

The canonical source of a program that was read from a source text is read as the program again, up
to locations (`Program.ofSource_text_of_creationless`), and so it is its own canonical source
(`Program.ofSource_text_of_unclashing`). This is so unless a plain type behind `new` stands before
an angle bracket and what begins as a type may: parentheses in the source text may have kept them
apart, but the canonical source has none there, and the bracket may open type arguments.
-/

namespace Offside

private theorem Program.WellFormed.clear {program : Program} (h : program.WellFormed)
    (hunclashing : program.Meets unclashing) : program.Meets clear :=
  fun struct hstruct handler hhandler ↦
    ((h struct hstruct).2.2.2 handler hhandler).2.2.and
    (hunclashing struct hstruct handler hhandler)

/-- A program in which no object is created is read from its canonical source as it was read from
its source text, up to locations. -/
theorem Program.ofSource_text_of_creationless {file source : String} {memoize : Bool}
    {program : Program} (h : Program.ofSource file source memoize = .ok program)
    (hcreationless : program.Meets creationless) (file' : String) (memoize' : Bool) :
    ∃ found, Program.ofSource file' program.text memoize' = .ok found ∧
      found.erase = program.erase := by
  have hunclashing : program.Meets unclashing := fun struct hstruct handler hhandler ↦
    (hcreationless struct hstruct handler hhandler).elim proof_creationless
  have hwellFormed := Program.wellFormed_of_ofSource h
  exact hwellFormed.ofSource_text (hwellFormed.clear hunclashing) file' memoize'

-- The program is a single handler that answers a name.
private def Program.answersName : Program → Bool
  | ⟨_, [⟨_, _, _, [⟨_, _, _, .mk _ [.expression _ (.name ..)]⟩]⟩]⟩ => true
  | _ => false

/-- A handler that answers its parameter is read from its canonical source. -/
theorem Program.ofSource_text_of_creationless_echo :
    ∃ program found, Program.ofSource "f" "struct A:\n  b(c):\n    (c)\n" true = .ok program ∧
      program.Meets creationless ∧ Program.ofSource "f" program.text true = .ok found ∧
      found.erase = program.erase := by
  obtain ⟨program, hread, hform⟩ :=
    exists_of_check "struct A:\n  b(c):\n    (c)\n" Program.answersName (by decide +kernel)
  have hcreationless : program.Meets creationless := by
    unfold Program.answersName at hform
    split at hform
    · rintro _ (_ | ⟨_, ⟨⟩⟩) _ (_ | ⟨_, ⟨⟩⟩)
      exact ⟨trivial, ⟨trivial, trivial⟩, trivial⟩
    · cases hform
  obtain ⟨found, hfound, herase⟩ :=
    Program.ofSource_text_of_creationless hread hcreationless "f" true
  exact ⟨program, found, hread, hcreationless, hfound, herase⟩

/-- The canonical source of a program in which no open type stands before an angle bracket and the
beginning of a type is read as a program with the same canonical source. -/
theorem Program.ofSource_text_of_unclashing {file source : String} {memoize : Bool}
    {program : Program} (h : Program.ofSource file source memoize = .ok program)
    (hunclashing : program.Meets unclashing) (file' : String) (memoize' : Bool) :
    ∃ found, Program.ofSource file' program.text memoize' = .ok found ∧
      found.text = program.text := by
  have hwellFormed := Program.wellFormed_of_ofSource h
  obtain ⟨found, hfound, herase⟩ :=
    hwellFormed.ofSource_text (hwellFormed.clear hunclashing) file' memoize'
  exact ⟨found, hfound, text_eq_of_erase_eq herase⟩

-- The program is a single handler that compares a new object with an integer.
private def Program.comparesCreation : Program → Bool
  | ⟨_, [⟨_, _, _, [⟨_, _, _, .mk _ [.expression _
      (.binary _ .less (.create ..) (.integer ..))]⟩]⟩]⟩ => true
  | _ => false

/-- A comparison of a new object is read from its canonical source without the parentheses where no
type begins behind its sign. -/
theorem Program.ofSource_text_of_unclashing_less :
    ∃ program found, Program.ofSource "f" "struct A:\n  b(c):\n    (new C) < 1\n" true =
        .ok program ∧
      program.Meets unclashing ∧ Program.ofSource "f" program.text true = .ok found ∧
      found.text = program.text := by
  obtain ⟨program, hread, hform⟩ :=
    exists_of_check "struct A:\n  b(c):\n    (new C) < 1\n" Program.comparesCreation
      (by decide +kernel)
  have hunclashing : program.Meets unclashing := by
    unfold Program.comparesCreation at hform
    split at hform
    · rintro _ (_ | ⟨_, ⟨⟩⟩) _ (_ | ⟨_, ⟨⟩⟩)
      exact ⟨trivial, ⟨trivial, Bool.and_false _, rfl, rfl⟩, trivial⟩
    · cases hform
  obtain ⟨found, hfound, htext⟩ :=
    Program.ofSource_text_of_unclashing hread hunclashing "f" true
  exact ⟨program, found, hread, hunclashing, hfound, htext⟩

/-- Where an open type stands before an angle bracket and what begins as a type may, the canonical
source may be no program: here the list behind the bracket is read as a type. -/
theorem Program.ofSource_text_rejected :
    ∃ program error,
      Program.ofSource "f" "struct Program:\n  Main(system):\n    (new Foo) < [1]\n" true =
        .ok program ∧
      program.text = "struct Program:\n  Main(system):\n    new Foo < [1]\n" ∧
      Program.ofSource "f" program.text true = .error error := by
  obtain ⟨program, hread, hcheck⟩ :=
    exists_of_check "struct Program:\n  Main(system):\n    (new Foo) < [1]\n"
      (fun program ↦ program.text = "struct Program:\n  Main(system):\n    new Foo < [1]\n" &&
        !(Program.ofSource "f" program.text true).isOk) (by decide +kernel)
  rw [Bool.and_eq_true_iff, decide_eq_true_eq, Bool.not_eq_true'] at hcheck
  obtain ⟨htext, hfails⟩ := hcheck
  cases hanswer : Program.ofSource "f" program.text true with
  | ok found =>
    rw [hanswer] at hfails
    cases hfails
  | error error => exact ⟨program, error, hread, htext, hanswer⟩

end Offside
