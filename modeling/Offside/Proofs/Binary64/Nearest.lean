import Offside.Binary64.Shortest

/-!
# Decimals that read back

A finite number is what its exact decimal rounds to (`nearest_exactDecimal`), and decimals of one
value round to one number, as long as neither bound of the exponent cuts them off
(`nearest_scaled`). So the shortest decimal of a number reads back as that number
(`nearest_shortest`), however many zeros are written behind it.
-/

namespace Offside

-- Powers of natural numbers are their own, also where other powers are known.
attribute [local instance (2000)] instPowNat

/-- A quotient without remainder is not rounded. -/
theorem roundHalfEven_mul_right (quotient denominator : Nat) (h : 0 < denominator) :
    roundHalfEven (quotient * denominator) denominator = quotient := by
  have hzero : 2 * (quotient * denominator % denominator) < denominator := by
    rw [Nat.mul_mod_left]
    omega
  simp only [roundHalfEven, if_pos hzero]
  exact Nat.mul_div_cancel quotient h

/-- Rounding depends on the value of the quotient alone. -/
theorem roundHalfEven_mul_mul (numerator denominator c : Nat) (hc : 0 < c) :
    roundHalfEven (numerator * c) (denominator * c) = roundHalfEven numerator denominator := by
  have hless : 2 * (numerator % denominator * c) < denominator * c ↔
      2 * (numerator % denominator) < denominator := by
    rw [← Nat.mul_assoc, Nat.mul_lt_mul_right hc]
  have hmore : denominator * c < 2 * (numerator % denominator * c) ↔
      denominator < 2 * (numerator % denominator) := by
    rw [← Nat.mul_assoc, Nat.mul_lt_mul_right hc]
  simp only [roundHalfEven, Nat.mul_div_mul_right _ _ hc, Nat.mul_mod_mul_right, hless, hmore]

namespace Binary64

private theorem ofRatio_mul_mul (numerator denominator c : Nat) (hc : 0 < c) :
    ofRatio (numerator * c) (denominator * c) = ofRatio numerator denominator := by
  simp only [ofRatio]
  rw [Nat.mul_right_comm numerator, Nat.mul_div_mul_right _ _ hc, Nat.mul_right_comm denominator,
    roundHalfEven_mul_mul _ _ _ hc]

private theorem ofRatio_congr {a b a' b' : Nat} (hb : 0 < b) (hb' : 0 < b') (h : a * b' = a' * b) :
    ofRatio a b = ofRatio a' b' := by
  rw [← ofRatio_mul_mul a b b' hb', h, Nat.mul_comm b b', ofRatio_mul_mul a' b' b hb]

/-- A magnitude in the form that `magnitude` gives it. -/
structure IsCanonical (significand shift : Nat) : Prop where
  lt : significand < 2 ^ (53 : Nat)
  normal : shift = 0 ∨ 2 ^ (52 : Nat) ≤ significand

private theorem IsCanonical.log2_sub {significand shift : Nat} (h : IsCanonical significand shift)
    (hne : significand ≠ 0) : (significand * 2 ^ shift).log2 - 52 = shift := by
  have hpow := Nat.two_pow_pos shift
  have hproduct : significand * 2 ^ shift ≠ 0 := Nat.mul_ne_zero hne (Nat.ne_of_gt hpow)
  obtain rfl | hnormal := h.normal
  · have hlog : (significand * 2 ^ (0 : Nat)).log2 < 53 := by
      rw [Nat.log2_lt hproduct, Nat.pow_zero, Nat.mul_one]
      exact h.lt
    omega
  · have hlog : (significand * 2 ^ shift).log2 = 52 + shift := by
      rw [Nat.log2_eq_iff hproduct, Nat.add_right_comm, Nat.pow_add, Nat.pow_add]
      exact ⟨Nat.mul_le_mul_right _ hnormal, Nat.mul_lt_mul_of_pos_right h.lt hpow⟩
    omega

/-- A whole number of units is not rounded. -/
theorem ofRatio_units {significand shift numerator denominator : Nat}
    (h : IsCanonical significand shift) (hne : significand ≠ 0) (hpos : 0 < denominator)
    (hunits : numerator * 2 ^ (1074 : Nat) = significand * 2 ^ shift * denominator) :
    ofRatio numerator denominator =
      ⟨UInt64.ofNat (min (shift * 2 ^ (52 : Nat) + significand) infinityBits)⟩ := by
  have hround : roundHalfEven (significand * 2 ^ shift * denominator) (denominator * 2 ^ shift) =
      significand := by
    rw [Nat.mul_assoc, Nat.mul_comm (2 ^ shift)]
    exact roundHalfEven_mul_right _ _ (Nat.mul_pos hpos (Nat.two_pow_pos shift))
  simp only [ofRatio]
  rw [hunits, Nat.mul_div_cancel _ hpos, h.log2_sub hne, hround]

/-- The magnitude of a finite positive number says what its bits are. -/
theorem bits_of_magnitude {x : Binary64} {significand shift : Nat}
    (h : x.magnitude = .finite significand shift) (hsign : x.isNegative = false) :
    IsCanonical significand shift ∧ x.bits.toNat = shift * 2 ^ (52 : Nat) + significand ∧
      shift * 2 ^ (52 : Nat) + significand < infinityBits := by
  have hfield : x.exponentField = x.bits.toNat / 2 ^ (52 : Nat) := by
    simp only [isNegative, decide_eq_false_iff_not] at hsign
    unfold exponentField
    omega
  have hfraction : x.fractionField < 2 ^ (52 : Nat) := Nat.mod_lt _ (Nat.two_pow_pos 52)
  have hbits : x.bits.toNat = x.exponentField * 2 ^ (52 : Nat) + x.fractionField := by
    rw [hfield]
    exact (Nat.div_add_mod' ..).symm
  have hexponent : x.exponentField < 2 ^ (11 : Nat) := Nat.mod_lt _ (Nat.two_pow_pos 11)
  unfold magnitude at h
  unfold infinityBits
  clear hfield
  generalize x.bits.toNat = bits, x.exponentField = exponent, x.fractionField = fraction at *
  split at h
  · split at h <;> cases h
  · next hfinite =>
    split at h
    · next hzero =>
      cases h
      rw [hzero, Nat.zero_mul, Nat.zero_add] at hbits
      rw [Nat.zero_mul, Nat.zero_add]
      exact ⟨⟨by omega, .inl rfl⟩, hbits, by omega⟩
    · next hzero =>
      cases h
      obtain ⟨field, rfl⟩ := Nat.exists_eq_succ_of_ne_zero hzero
      rw [Nat.succ_mul, Nat.add_assoc] at hbits
      rw [Nat.succ_sub_one]
      exact ⟨⟨by omega, .inr (by omega)⟩, hbits, by omega⟩

/-! ### The exact decimal -/

-- In these lemmas the exponent is a variable, so that no large power is computed.
private theorem power_pos (base exponent : Nat) (h : 0 < base) : 0 < base ^ exponent :=
  Nat.pow_pos h

private theorem mul_powers (n exponent : Nat) :
    n * 5 ^ exponent * 2 ^ exponent = n * 10 ^ exponent := by
  rw [Nat.mul_assoc, ← Nat.mul_pow]

private theorem le_log2_mul_five_pow {n bits : Nat} (exponent : Nat) (hne : n ≠ 0)
    (h : bits ≤ 2 * exponent) : bits ≤ (n * 5 ^ exponent).log2 := by
  have hpow : 5 ^ exponent ≠ 0 := Nat.ne_of_gt (power_pos 5 exponent (by decide))
  rw [Nat.le_log2 (Nat.mul_ne_zero hne hpow)]
  calc 2 ^ bits ≤ 2 ^ (2 * exponent) := Nat.pow_le_pow_right (by decide) h
    _ = (2 ^ (2 : Nat)) ^ exponent := Nat.pow_mul ..
    _ ≤ 5 ^ exponent := Nat.pow_le_pow_left (by decide) exponent
    _ ≤ n * 5 ^ exponent := Nat.le_mul_of_pos_left _ (Nat.pos_of_ne_zero hne)

private theorem digits_exactDecimal (significand shift : Nat) :
    (exactDecimal significand shift).digits = significand * 2 ^ shift * 5 ^ (1074 : Nat) := rfl

private theorem digits_exactDecimal_pos {significand : Nat} (shift : Nat) (h : significand ≠ 0) :
    (exactDecimal significand shift).digits ≠ 0 := by
  rw [digits_exactDecimal]
  exact Nat.mul_ne_zero (Nat.mul_ne_zero h (Nat.ne_of_gt (Nat.two_pow_pos shift)))
    (Nat.ne_of_gt (power_pos 5 1074 (by decide)))

/-- The exact decimal of a finite positive number rounds to that number. -/
theorem nearest_exactDecimal {x : Binary64} {significand shift : Nat}
    (h : x.magnitude = .finite significand shift) (hsign : x.isNegative = false)
    (hne : significand ≠ 0) : (exactDecimal significand shift).nearest = x := by
  obtain ⟨hcanonical, hbits, hfinite⟩ := bits_of_magnitude h hsign
  have hdigits := digits_exactDecimal_pos shift hne
  have hlarge : 2146 ≤ (exactDecimal significand shift).digits.log2 := by
    rw [digits_exactDecimal]
    exact le_log2_mul_five_pow 1074 (Nat.mul_ne_zero hne (Nat.ne_of_gt (Nat.two_pow_pos shift)))
      (by decide)
  have hratio : ofRatio (significand * 2 ^ shift * 5 ^ (1074 : Nat)) (10 ^ (1074 : Nat)) = x := by
    rw [ofRatio_units hcanonical hne (power_pos 10 1074 (by decide)) (mul_powers _ 1074),
      Nat.min_eq_left (Nat.le_of_lt hfinite), ← hbits, UInt64.ofNat_toNat]
  have hexponent : (exactDecimal significand shift).exponent = -1074 := rfl
  have hscale : (-(-1074 : Int)).toNat = 1074 := rfl
  unfold Decimal.nearest
  rw [if_neg hdigits, if_neg (by rw [hexponent]; decide), if_neg (by rw [hexponent]; omega),
    if_neg (by rw [hexponent]; decide), hexponent, hscale]
  exact hratio

end Binary64

/-! ### Decimals of one value -/

namespace Decimal

/-- No bound of the exponent cuts the decimal off. -/
structure InRange (d : Decimal) : Prop where
  digits : d.digits ≠ 0
  below : d.exponent < 309
  above : -1076 < (d.digits.log2 : Int) + 1 + 3 * d.exponent

private theorem InRange.nearest_eq {d : Decimal} (h : d.InRange) :
    d.nearest = .ofRatio (d.digits * 10 ^ d.exponent.toNat) (10 ^ (-d.exponent).toNat) := by
  have hbelow := h.below
  have habove := h.above
  unfold nearest
  rw [if_neg h.digits, if_neg (by omega), if_neg (by omega)]
  split
  · next hexponent =>
    have hnone : (-d.exponent).toNat = 0 := by omega
    rw [hnone, Nat.pow_zero]
  · next hexponent =>
    have hnone : d.exponent.toNat = 0 := by omega
    rw [hnone, Nat.pow_zero, Nat.mul_one]

private theorem inRange_of_nearest {d : Decimal} (hinfinity : d.nearest ≠ .infinity)
    (hzero : d.nearest ≠ .zero) : d.InRange := by
  unfold nearest at hinfinity hzero
  split at hinfinity
  · next h =>
    rw [if_pos h] at hzero
    exact absurd rfl hzero
  · next hdigits =>
    rw [if_neg hdigits] at hzero
    split at hinfinity
    · exact absurd rfl hinfinity
    · next hbelow =>
      rw [if_neg hbelow] at hzero
      split at hinfinity
      · next h =>
        rw [if_pos h] at hzero
        exact absurd rfl hzero
      · next habove => exact ⟨hdigits, by omega, by omega⟩

/-- Decimals of one value round to one number. -/
theorem nearest_congr {d d' : Decimal} (h : d.InRange) (h' : d'.InRange) {k : Nat}
    (hdigits : d'.digits = d.digits * 10 ^ k) (hexponent : d'.exponent = d.exponent - k) :
    d'.nearest = d.nearest := by
  rw [h.nearest_eq, h'.nearest_eq]
  refine Binary64.ofRatio_congr (Nat.pow_pos (by decide)) (Nat.pow_pos (by decide)) ?_
  rw [hdigits, Nat.mul_assoc, Nat.mul_assoc, Nat.mul_assoc, ← Nat.pow_add, ← Nat.pow_add,
    ← Nat.pow_add]
  congr 2
  omega

/-- Digits may be added to a decimal. -/
theorem nearest_scaled {d : Decimal} (h : d.InRange) (k : Nat) :
    (⟨d.digits * 10 ^ k, d.exponent - k⟩ : Decimal).nearest = d.nearest := by
  refine nearest_congr h ⟨?_, ?_, ?_⟩ rfl rfl
  · exact Nat.mul_ne_zero h.digits (Nat.ne_of_gt (Nat.pow_pos (by decide)))
  · have hbelow := h.below
    dsimp only
    omega
  · have habove := h.above
    have hlog : d.digits.log2 + 3 * k ≤ (d.digits * 10 ^ k).log2 := by
      have hpow := Nat.pow_pos (n := k) (show 0 < 10 by decide)
      rw [Nat.le_log2 (Nat.mul_ne_zero h.digits (Nat.ne_of_gt hpow)), Nat.pow_add, Nat.pow_mul]
      exact Nat.mul_le_mul (Nat.log2_self_le h.digits) (Nat.pow_le_pow_left (by decide) k)
    dsimp only
    omega

/-- A carry into the exponent does not change what a decimal rounds to. -/
theorem nearest_carried {d : Decimal} (hinfinity : d.nearest ≠ .infinity)
    (hzero : d.nearest ≠ .zero) : (Binary64.carried d).nearest = d.nearest := by
  have h := inRange_of_nearest hinfinity hzero
  unfold Binary64.carried
  split
  · next hten =>
    have hbelow := h.below
    have habove := h.above
    have hlimit : d.exponent ≠ 308 := by
      intro hlimit
      have hlarge : (⟨10, 308⟩ : Decimal).nearest = .infinity := by decide +kernel
      rw [← hten, ← hlimit] at hlarge
      exact hinfinity hlarge
    have hone : Nat.log2 1 = 0 := rfl
    have hthree : Nat.log2 10 = 3 := by decide
    rw [hten, hthree] at habove
    refine (nearest_congr (d := ⟨1, d.exponent + 1⟩) (k := 1) ⟨?_, ?_, ?_⟩ h ?_ ?_).symm
    · exact Nat.one_ne_zero
    · dsimp only
      omega
    · dsimp only
      rw [hone]
      omega
    · rw [hten]
      rfl
    · dsimp only
      omega
  · rfl

end Decimal

namespace Binary64

/-- What the candidates on a grid have in common with the number: they read back as it. -/
theorem nearest_of_onGrid {target : Binary64} {exact d : Decimal} {count : Nat}
    (h : onGrid target exact count = some d) : d.nearest = target := by
  have hcandidate {candidate : Decimal} (h : readingBack target candidate = some d) :
      d.nearest = target := by
    unfold readingBack at h
    split at h
    · next hnearest =>
      cases h
      exact hnearest
    · cases h
  unfold onGrid at h
  dsimp only at h
  split at h <;>
  · rw [Option.orElse_eq_orElse, ← Option.or_eq_orElse, Option.or_eq_some_iff] at h
    obtain h | ⟨-, h⟩ := h
    · exact hcandidate h
    · exact hcandidate h

variable {x : Binary64} {significand shift : Nat}

private theorem ne_infinity_of_magnitude (h : x.magnitude = .finite significand shift) :
    x ≠ .infinity := by
  rintro rfl
  have hinfinite : infinity.magnitude = .infinite := by decide
  rw [hinfinite] at h
  cases h

private theorem ne_zero_of_magnitude (h : x.magnitude = .finite significand shift)
    (hne : significand ≠ 0) :
    x ≠ .zero := by
  rintro rfl
  have hnone : zero.magnitude = .finite 0 0 := by decide
  rw [hnone] at h
  cases h
  exact hne rfl

/-- The shortest decimal of a finite positive number reads back as that number. -/
theorem nearest_shortest (h : x.magnitude = .finite significand shift)
    (hsign : x.isNegative = false) (hne : significand ≠ 0) :
    (shortest significand shift).nearest = x := by
  have hexact := nearest_exactDecimal h hsign hne
  unfold shortest
  rw [if_neg hne]
  dsimp only
  rw [hexact]
  generalize exactDecimal significand shift = exact at hexact ⊢
  have hfound : (((List.range' 1 17).findSome? (onGrid x exact)).getD exact).nearest = x := by
    cases hgrid : (List.range' 1 17).findSome? (onGrid x exact) with
    | none => exact hexact
    | some d =>
      obtain ⟨count, -, hcount⟩ := List.exists_of_findSome?_eq_some hgrid
      exact nearest_of_onGrid hcount
  have hinfinity := ne_infinity_of_magnitude h
  have hzero := ne_zero_of_magnitude h hne
  rw [Decimal.nearest_carried (by rwa [hfound]) (by rwa [hfound]), hfound]

/-- Zeros behind the digits of the shortest decimal do not change what it reads back as. -/
theorem nearest_shortest_scaled (h : x.magnitude = .finite significand shift)
    (hsign : x.isNegative = false) (k : Nat) :
    (⟨(shortest significand shift).digits * 10 ^ k, (shortest significand shift).exponent - k⟩ :
      Decimal).nearest = x := by
  by_cases hne : significand = 0
  · obtain ⟨hcanonical, hbits, -⟩ := bits_of_magnitude h hsign
    have hshift : shift = 0 := by
      have hnormal := hcanonical.normal
      omega
    rw [hshift, hne, Nat.zero_mul] at hbits
    have hzero : x = .zero := by
      obtain ⟨bits⟩ := x
      exact congrArg Binary64.mk (UInt64.toNat_inj.1 hbits)
    rw [hzero, shortest, if_pos hne, Nat.zero_mul]
    rfl
  · have hread := nearest_shortest h hsign hne
    have hinfinity := ne_infinity_of_magnitude h
    have hzero := ne_zero_of_magnitude h hne
    rw [← hread] at hinfinity hzero
    rw [Decimal.nearest_scaled (Decimal.inRange_of_nearest hinfinity hzero), hread]

end Binary64

end Offside
