import TypedIsl.Double.Decimal

/-!
# Rounding to magnitudes

Rounding keeps what needs no rounding: a ratio or a decimal that equals a magnitude is rounded to
it. Rounding a whole number gives a whole number.
-/

namespace TypedIsl

theorem roundHalfEven_mul_left (n : Nat) {d : Nat} (hd : 0 < d) : roundHalfEven (n * d) d = n := by
  unfold roundHalfEven
  rw [Nat.mul_mod_left, Nat.mul_div_cancel _ hd, if_neg]
  omega

namespace Magnitude

variable (m : Magnitude)

theorem units_eq : m.units = m.significand * Nat.pow 2 m.scale := rfl

theorem eq_of_parts {m k : Magnitude} (hsignificand : m.significand = k.significand)
    (hscale : m.scale = k.scale) : m = k := by
  cases m
  cases k
  simp_all

theorem log2_units_of_scale_ne_zero (h : m.scale ≠ 0) : m.units.log2 = 52 + m.scale := by
  have hnormal : 2 ^ 52 ≤ m.significand := m.normal.resolve_left h
  have hlower : 2 ^ (52 + m.scale) ≤ m.units := by
    rw [units_eq, Nat.pow_add]
    exact Nat.mul_le_mul_right _ hnormal
  have hupper : m.units < 2 ^ (52 + m.scale + 1) := by
    have hpow : 2 ^ (52 + m.scale + 1) = 2 ^ 53 * 2 ^ m.scale := by
      rw [← Nat.pow_add]
      congr 1
      omega
    rw [hpow, units_eq]
    exact Nat.mul_lt_mul_of_pos_right m.significand_lt (Nat.two_pow_pos _)
  have hne : m.units ≠ 0 := Nat.ne_of_gt (Nat.lt_of_lt_of_le (Nat.two_pow_pos _) hlower)
  exact (Nat.log2_eq_iff hne).mpr ⟨hlower, hupper⟩

theorem scaleFor_units : scaleFor m.units = m.scale := by
  unfold scaleFor
  by_cases h : m.scale = 0
  · have hunits : m.units = m.significand := by
      rw [units_eq, h]
      exact Nat.mul_one m.significand
    have hlog : m.units.log2 ≤ 52 := by
      by_cases hzero : m.units = 0
      · rw [hzero, Nat.log2_zero]
        omega
      · rw [hunits] at hzero ⊢
        exact Nat.le_of_lt_succ ((Nat.log2_lt hzero).mpr m.significand_lt)
    omega
  · rw [log2_units_of_scale_ne_zero m h]
    omega

/-- A ratio of so many units is rounded to the magnitude. -/
theorem ofUnits?_of_eq {n d : Nat} (hd : 0 < d) (h : n = m.units * d) : ofUnits? n d = some m := by
  have hquotient : n / d = m.units := by rw [h, Nat.mul_div_cancel _ hd]
  have hscale : scaleFor (n / d) = m.scale := by rw [hquotient, scaleFor_units]
  have hsignificand : significandFor n d = m.significand := by
    have hnum : n = m.significand * (d * Nat.pow 2 m.scale) := by
      rw [h, units_eq, Nat.mul_assoc, Nat.mul_comm d]
    rw [significandFor, hscale, hnum]
    exact roundHalfEven_mul_left _ (Nat.mul_pos hd (Nat.two_pow_pos _))
  unfold ofUnits?
  rw [dif_neg, dif_pos]
  · exact congrArg some (eq_of_parts hsignificand hscale)
  · rw [hscale]
    exact m.scale_le
  · rw [hsignificand]
    exact Nat.ne_of_lt m.significand_lt

/-- The units of what a ratio is rounded to, whether or not rounding carries. -/
theorem units_of_ofUnits? {m : Magnitude} {n d : Nat} (h : ofUnits? n d = some m) :
    m.units = significandFor n d * Nat.pow 2 (scaleFor (n / d)) := by
  unfold ofUnits? at h
  split at h
  · rename_i hcarry
    split at h
    · simp only [Option.some.injEq] at h
      rw [← h, hcarry]
      change 2 ^ 52 * 2 ^ (scaleFor (n / d) + 1) = 2 ^ 53 * 2 ^ scaleFor (n / d)
      rw [← Nat.pow_add, ← Nat.pow_add]
      congr 1
      omega
    · exact absurd h (by simp)
  · split at h
    · simp only [Option.some.injEq] at h
      rw [← h]
      rfl
    · exact absurd h (by simp)

/-- Rounding to fewer binary digits keeps a power of two as a factor. -/
theorem pow_dvd_roundHalfEven_mul_pow (n places scale : Nat) :
    Nat.pow 2 places ∣
      roundHalfEven (n * Nat.pow 2 places) (Nat.pow 2 scale) * Nat.pow 2 scale := by
  simp only [Nat.pow_eq]
  rcases Nat.le_total places scale with h | h
  · exact Nat.dvd_mul_left_of_dvd (Nat.pow_dvd_pow 2 h) _
  · have hsplit : n * 2 ^ places = n * 2 ^ (places - scale) * 2 ^ scale := by
      rw [Nat.mul_assoc, ← Nat.pow_add, Nat.sub_add_cancel h]
    rw [hsplit, roundHalfEven_mul_left _ (Nat.two_pow_pos _), ← hsplit]
    exact Nat.dvd_mul_left _ _

/-- The magnitude is a whole number. -/
def IsWhole : Prop :=
  Nat.pow 2 1074 ∣ m.units

theorem isWhole_zero : IsWhole zero := by
  unfold IsWhole
  generalize 1074 = places
  exact Nat.dvd_zero _

/-- A whole number is rounded to a whole number. -/
theorem isWhole_of_ofRatio?_one {m : Magnitude} {n : Nat} (h : ofRatio? n 1 = some m) :
    m.IsWhole := by
  rw [ofRatio?] at h
  unfold IsWhole
  generalize 1074 = places at h ⊢
  rw [units_of_ofUnits? h, significandFor, Nat.one_mul]
  exact pow_dvd_roundHalfEven_mul_pow _ _ _

theorem ofRatio?_of_eq {n d : Nat} (hd : 0 < d) (h : n * Nat.pow 2 1074 = m.units * d) :
    ofRatio? n d = some m :=
  ofUnits?_of_eq m hd h

theorem eq_zero_of_units (h : m.units = 0) : m = zero := by
  rw [units_eq, Nat.mul_eq_zero] at h
  have hsignificand : m.significand = 0 := h.resolve_right (Nat.ne_of_gt (Nat.two_pow_pos _))
  have hscale : m.scale = 0 := by
    rcases m.normal with hscale | hnormal
    · exact hscale
    · rw [hsignificand] at hnormal
      exact absurd hnormal (by decide)
  exact eq_of_parts hsignificand hscale

/-! ## Decimals -/

/-- A decimal in the range that is expanded, and equal to the magnitude, is rounded to it. -/
theorem ofDecimal?_of_eq {d : Decimal} (hlarge : d.exponent ≤ 400)
    (hsmall : -(400 + d.digits.log2 : Int) ≤ d.exponent)
    (h : d.digits * Nat.pow 10 d.exponent.toNat * Nat.pow 2 1074 =
      m.units * Nat.pow 10 (-d.exponent).toNat) :
    ofDecimal? d = some m := by
  unfold ofDecimal?
  by_cases hdigits : d.digits = 0
  · rw [hdigits, Nat.mul_assoc, Nat.zero_mul] at h
    have hunits : m.units = 0 := by
      rcases Nat.mul_eq_zero.mp h.symm with hunits | hpow
      · exact hunits
      · exact absurd hpow (Nat.ne_of_gt (Nat.pow_pos (by decide)))
    rw [if_pos hdigits, eq_zero_of_units m hunits]
  · rw [if_neg hdigits, if_neg (by omega), if_neg (by omega)]
    exact ofRatio?_of_eq m (Nat.pow_pos (by decide)) h

/-- A decimal without a fractional part is rounded to a whole number. -/
theorem isWhole_of_ofDecimal? {m : Magnitude} {d : Decimal} (hd : 0 ≤ d.exponent)
    (h : ofDecimal? d = some m) : m.IsWhole := by
  unfold ofDecimal? at h
  have hplaces : (-d.exponent).toNat = 0 := by omega
  split at h
  · simp only [Option.some.injEq] at h
    rw [← h]
    exact isWhole_zero
  · split at h
    · exact absurd h (by simp)
    · split at h
      · simp only [Option.some.injEq] at h
        rw [← h]
        exact isWhole_zero
      · rw [hplaces] at h
        exact isWhole_of_ofRatio?_one h

end Magnitude

end TypedIsl
