import Offside.Proofs.Binary64.Nearest
import Offside.Source.LexemeClass

/-!
# Numbers as digits

What digits write is read back: the digits of a natural number (`numeral_toDigits`), and the text of
a finite number in source code, which has digits on both sides of a point
(`Binary64.literal_reads_back`).
-/

namespace Offside

-- Powers of natural numbers are their own, also where other powers are known.
attribute [local instance (2000)] instPowNat

open Lexeme

/-- A text of digits. -/
def IsDigits (text : List Char) : Prop := ∀ c ∈ text, c.isDigit = true

namespace IsDigits

variable {text more : List Char}

private theorem append (h : IsDigits text) (h' : IsDigits more) : IsDigits (text ++ more) :=
  List.forall_mem_append.2 ⟨h, h'⟩

private theorem zeros (count : Nat) : IsDigits (Decimal.zeros count) := by
  intro c hc
  rw [List.eq_of_mem_replicate hc]
  rfl

/-- The digits of a number are digits. -/
theorem toDigits (n : Nat) : IsDigits (Nat.toDigits 10 n) := fun _ hc ↦
  Nat.isDigit_of_mem_toDigits (by decide) (by decide) hc

end IsDigits

namespace Lexeme

variable {text : List Char}

private theorem numeral_eq (h : IsDigits text) : numeral 10 text = Nat.ofDigitChars 10 text 0 := by
  unfold numeral
  rw [Nat.ofDigitChars_eq_foldl]
  generalize 0 = start
  induction text generalizing start with
  | nil => rfl
  | cons c text ih =>
    have hc := h c List.mem_cons_self
    rw [List.foldl_cons, List.foldl_cons, ih fun c hc ↦ h c (List.mem_cons_of_mem _ hc), digitValue,
      if_pos hc, Nat.mul_comm]

/-- The digits of a number write the number. -/
theorem numeral_toDigits (n : Nat) : numeral 10 (Nat.toDigits 10 n) = n := by
  rw [numeral_eq (.toDigits n), Nat.ofDigitChars_ten_toDigits]

/-- Zeros before the digits of a number do not change it. -/
theorem numeral_zeros_append (count n : Nat) :
    numeral 10 (Decimal.zeros count ++ Nat.toDigits 10 n) = n := by
  rw [numeral_eq (.append (.zeros count) (.toDigits n)), Nat.ofDigitChars_append, Decimal.zeros,
    Nat.ofDigitChars_replicate_zero, Nat.mul_zero, Nat.ofDigitChars_ten_toDigits]

/-- Each zero behind the digits of a number multiplies it by ten. -/
theorem numeral_append_zeros (n count : Nat) :
    numeral 10 (Nat.toDigits 10 n ++ Decimal.zeros count) = n * 10 ^ count := by
  rw [numeral_eq (.append (.toDigits n) (.zeros count)), Nat.ofDigitChars_append, Decimal.zeros,
    Nat.ofDigitChars_replicate_zero, Nat.ofDigitChars_ten_toDigits, Nat.mul_comm]

/-- A point between digits lowers the exponent by the number of digits behind it. -/
theorem decimalOf_point {whole fraction : List Char} (hwhole : IsDigits whole)
    (hfraction : IsDigits fraction) (hne : fraction ≠ []) :
    decimalOf (whole ++ '.' :: fraction) = ⟨numeral 10 (whole ++ fraction), -fraction.length⟩ := by
  have hrun : (whole ++ '.' :: fraction).takeWhile Char.isDigit = whole := by
    rw [List.takeWhile_append_of_pos hwhole, List.takeWhile_cons_of_neg (by decide),
      List.append_nil]
  have hpos : 0 < fraction.length := List.length_pos_iff.2 hne
  have hall : fraction.takeWhile Char.isDigit = fraction := by
    rw [← List.append_nil fraction, List.takeWhile_append_of_pos hfraction]
    rfl
  have hextent : fractionExtent ('.' :: fraction) = fraction.length + 1 := by
    simp only [fractionExtent, run, hall, hpos, if_true]
    omega
  have hlength : ('.' :: fraction).length = fraction.length + 1 := rfl
  have hzero : exponentValue [] = 0 := rfl
  simp only [decimalOf, hrun, List.drop_left, hextent]
  rw [← hlength, List.take_length, List.drop_length, List.drop_nil, hzero, List.drop_one,
    List.tail_cons, Int.zero_sub]

end Lexeme

/-- Digits on both sides of a point that write a decimal, maybe with zeros behind its digits. -/
structure WritesPoint (text : List Char) (d : Decimal) : Prop where
  form : ∃ whole fraction, text = whole ++ '.' :: fraction ∧ IsDigits whole ∧ IsDigits fraction ∧
    whole ≠ [] ∧ fraction ≠ []
  value : ∃ k : Nat, decimalOf text = ⟨d.digits * 10 ^ k, d.exponent - k⟩

private theorem writesPoint_of_eq {d : Decimal} {whole fraction : List Char} (k : Nat)
    (hwhole : IsDigits whole) (hfraction : IsDigits fraction) (hne : whole ≠ [])
    (hne' : fraction ≠ []) (hvalue : numeral 10 (whole ++ fraction) = d.digits * 10 ^ k)
    (hexponent : -(fraction.length : Int) = d.exponent - k) :
    WritesPoint (whole ++ '.' :: fraction) d := by
  refine ⟨⟨whole, fraction, rfl, hwhole, hfraction, hne, hne'⟩, k, ?_⟩
  rw [decimalOf_point hwhole hfraction hne', hvalue, hexponent]

private theorem withFraction_point (whole fraction : List Char) :
    Binary64.withFraction (whole ++ '.' :: fraction) = whole ++ '.' :: fraction := by
  rw [Binary64.withFraction, if_pos]
  simp

private theorem withFraction_digits {text : List Char} (h : IsDigits text) :
    Binary64.withFraction text = text ++ '.' :: ['0'] := by
  rw [Binary64.withFraction, if_neg]
  rw [List.any_eq_true]
  rintro ⟨c, hc, hmark⟩
  have hdigit := h c hc
  simp only [Bool.or_eq_true, beq_iff_eq] at hmark
  obtain (rfl | rfl) | rfl := hmark <;> cases hdigit

/-- A decimal in positional notation, made to show a point, writes that decimal. -/
theorem Decimal.writesPoint_positional (d : Decimal) :
    WritesPoint (Binary64.withFraction d.positional) d := by
  have hdigits := IsDigits.toDigits d.digits
  have hne : Nat.toDigits 10 d.digits ≠ [] := Nat.toDigits_ne_nil
  have hnumeral := numeral_toDigits d.digits
  have hbefore (count : Nat) := numeral_zeros_append count d.digits
  have hbehind (count : Nat) := numeral_append_zeros d.digits count
  unfold positional spread
  dsimp only
  generalize Nat.toDigits 10 d.digits = digits at *
  have hlength : 0 < digits.length := List.length_pos_iff.2 hne
  generalize hpoint : (digits.length : Int) + d.exponent = point
  split
  · next hsmall =>
    have hzero : '0' :: '.' :: zeros (-point).toNat ++ digits =
        zeros 1 ++ '.' :: (zeros (-point).toNat ++ digits) := rfl
    rw [hzero, withFraction_point]
    refine writesPoint_of_eq 0 (.zeros 1) (.append (.zeros _) hdigits) (List.cons_ne_nil _ _)
      (List.append_ne_nil_of_right_ne_nil _ hne) ?_ ?_
    · rw [← List.append_assoc, zeros, zeros, List.replicate_append_replicate, Nat.pow_zero,
        Nat.mul_one]
      exact hbefore _
    · rw [List.length_append, zeros, List.length_replicate]
      omega
  · next hlarge =>
    split
    · next hwhole =>
      rw [withFraction_digits (.append hdigits (.zeros _))]
      refine writesPoint_of_eq ((point - digits.length).toNat + 1) (.append hdigits (.zeros _))
        (.zeros 1) (List.append_ne_nil_of_left_ne_nil hne _) (List.cons_ne_nil _ _) ?_ ?_
      · rw [List.append_assoc, ← hbehind, zeros, zeros, List.replicate_succ']
      · rw [List.length_singleton]
        omega
    · next hinside =>
      rw [withFraction_point]
      have hcut := List.take_append_drop point.toNat digits
      have hparts : IsDigits (digits.take point.toNat) ∧ IsDigits (digits.drop point.toNat) := by
        rw [← hcut] at hdigits
        exact List.forall_mem_append.1 hdigits
      refine writesPoint_of_eq 0 hparts.1 hparts.2 ?_ ?_ ?_ ?_
      · rw [← List.length_pos_iff, List.length_take]
        omega
      · rw [← List.length_pos_iff, List.length_drop]
        omega
      · rw [hcut, hnumeral, Nat.pow_zero, Nat.mul_one]
      · rw [List.length_drop]
        omega

/-- The text of a finite number in source code reads back as the number. -/
theorem Binary64.literal_reads_back {x : Binary64} (hfinite : x.isFinite = true)
    (hsign : x.isNegative = false) :
    (∃ whole fraction, x.literal = whole ++ '.' :: fraction ∧ IsDigits whole ∧ IsDigits fraction ∧
      whole ≠ [] ∧ fraction ≠ []) ∧ (decimalOf x.literal).nearest = x := by
  have hmagnitude : ∃ significand shift, x.magnitude = .finite significand shift := by
    simp only [isFinite, bne_iff_ne] at hfinite
    unfold magnitude
    rw [if_neg hfinite]
    split <;> exact ⟨_, _, rfl⟩
  obtain ⟨significand, shift, hmagnitude⟩ := hmagnitude
  have hwrites := (shortest significand shift).writesPoint_positional
  have hliteral : x.literal = withFraction (shortest significand shift).positional := by
    simp [literal, plain, hmagnitude, signed, hsign]
  rw [hliteral]
  refine ⟨hwrites.form, ?_⟩
  obtain ⟨k, hvalue⟩ := hwrites.value
  rw [hvalue]
  exact nearest_shortest_scaled hmagnitude hsign k

end Offside
