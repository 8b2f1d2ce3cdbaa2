import TypedIsl.Proofs.Double.Rounding

/-!
# Numbers that are too large

A decimal without a positive exponent is rounded to infinity exactly if it is at least
`2 ^ 1024 - 2 ^ 970`. This number is as near to the greatest magnitude as to `2 ^ 1024`, and of
these two the latter is even.
-/

namespace TypedIsl

/-- The least number that is rounded to infinity. -/
def Double.overflow : Nat :=
  Nat.pow 2 1024 - Nat.pow 2 970

/-- A quotient is rounded up to an even number from halfway on. -/
theorem roundHalfEven_eq_succ_iff {n d k : Nat} (hd : 0 < d) (hk : k % 2 = 1) (hn : n / d ≤ k) :
    roundHalfEven n d = k + 1 ↔ (2 * k + 1) * d ≤ 2 * n := by
  have hsplit := Nat.div_add_mod n d
  have hmod := Nat.mod_lt n hd
  have hhalf : (2 * k + 1) * d = 2 * (d * k) + d := by
    rw [Nat.add_mul, Nat.one_mul, Nat.mul_assoc, Nat.mul_comm k]
  rw [hhalf]
  unfold roundHalfEven
  rcases Nat.lt_or_eq_of_le hn with hlt | heq
  · have hle : d * (n / d) + d ≤ d * k := by
      rw [← Nat.mul_succ]
      exact Nat.mul_le_mul_left d hlt
    split <;> omega
  · rw [heq] at hsplit ⊢
    split <;> omega

namespace Magnitude

variable {n d : Nat}

theorem ofUnits?_eq_none_iff_scale :
    ofUnits? n d = none ↔ 2045 < scaleFor (n / d) ∨
      scaleFor (n / d) = 2045 ∧ significandFor n d = Nat.pow 2 53 := by
  unfold ofUnits?
  by_cases hcarry : significandFor n d = Nat.pow 2 53
  · rw [dif_pos hcarry, dite_eq_right_iff]
    simp only [reduceCtorEq, imp_false, hcarry, and_true]
    omega
  · rw [dif_neg hcarry, dite_eq_right_iff]
    simp only [reduceCtorEq, imp_false, hcarry, and_false, or_false]
    omega

/-- Where a quotient comes to lie at the scale that is chosen for it. -/
theorem div_mul_scale_lt : n / (d * Nat.pow 2 (scaleFor (n / d))) < Nat.pow 2 53 := by
  have h := div_scaleFor_lt (n / d)
  rwa [Nat.div_div_eq_div_mul] at h

theorem le_div_mul_scale (h : scaleFor (n / d) ≠ 0) :
    Nat.pow 2 52 ≤ n / (d * Nat.pow 2 (scaleFor (n / d))) := by
  have h := le_div_scaleFor h
  rwa [Nat.div_div_eq_div_mul] at h

/-- Halfway between the greatest magnitude and the next power of two, rounding goes up. -/
theorem ofUnits?_eq_none_iff (hd : 0 < d) :
    ofUnits? n d = none ↔ (Nat.pow 2 54 - 1) * (d * Nat.pow 2 2045) ≤ 2 * n := by
  have hgreatest : Nat.pow 2 53 = 9007199254740991 + 1 := rfl
  have hcarry : Nat.pow 2 54 - 1 = 2 * 9007199254740991 + 1 := rfl
  have hlower : Nat.pow 2 52 = 4503599627370496 := rfl
  have hunit (scale : Nat) : 0 < d * Nat.pow 2 scale := Nat.mul_pos hd (Nat.two_pow_pos scale)
  have hgrows {low high : Nat} (h : low < high) : 2 * (d * Nat.pow 2 low) ≤ d * Nat.pow 2 high := by
    have hpow : Nat.pow 2 (low + 1) ≤ Nat.pow 2 high := Nat.pow_le_pow_right (by decide) h
    have hsucc : Nat.pow 2 (low + 1) = 2 * Nat.pow 2 low := Nat.pow_succ'
    rw [hsucc] at hpow
    rw [Nat.mul_left_comm]
    exact Nat.mul_le_mul_left d hpow
  have hbelow := div_mul_scale_lt (n := n) (d := d)
  have habove := le_div_mul_scale (n := n) (d := d)
  rw [ofUnits?_eq_none_iff_scale, significandFor]
  generalize scaleFor (n / d) = scale at hbelow habove ⊢
  rw [hgreatest] at hbelow ⊢
  rw [hcarry]
  rw [hlower] at habove
  generalize 2045 = top
  rcases Nat.lt_trichotomy scale top with hscale | rfl | hscale
  · have hn := (Nat.div_lt_iff_lt_mul (hunit scale)).mp hbelow
    have hdouble := hgrows hscale
    have hpos := hunit scale
    constructor <;> omega
  · have hround := roundHalfEven_eq_succ_iff (hunit scale) rfl (Nat.le_of_lt_succ hbelow)
    rw [hround]
    simp
  · have hn := (Nat.le_div_iff_mul_le (hunit scale)).mp (habove (by omega))
    have hdouble := hgrows hscale
    constructor <;> omega

theorem overflow_eq : Double.overflow = (Nat.pow 2 54 - 1) * Nat.pow 2 970 := by
  unfold Double.overflow
  generalize hlow : 970 = low
  have hhigh : 1024 = 54 + low := by omega
  rw [hhigh, Nat.sub_mul, Nat.one_mul]
  exact congrArg (· - Nat.pow 2 low) (Nat.pow_add 2 54 low)

theorem ofRatio?_eq_none_iff (hd : 0 < d) : ofRatio? n d = none ↔ Double.overflow * d ≤ n := by
  rw [ofRatio?, ofUnits?_eq_none_iff hd, overflow_eq]
  generalize hlow : 970 = low
  generalize hunit : 1074 = places
  have htop : 2045 = low + places + 1 := by omega
  have hpow : Nat.pow 2 (low + places + 1) = 2 * (Nat.pow 2 low * Nat.pow 2 places) := by
    have hsucc : Nat.pow 2 (low + places + 1) = 2 * Nat.pow 2 (low + places) := Nat.pow_succ'
    rw [hsucc]
    exact congrArg (2 * ·) (Nat.pow_add 2 low places)
  have hpos : 0 < Nat.pow 2 places := Nat.two_pow_pos _
  rw [htop, hpow]
  generalize Nat.pow 2 places = unit at hpos ⊢
  generalize Nat.pow 2 54 - 1 = digits
  have hleft : digits * (d * (2 * (Nat.pow 2 low * unit))) =
      2 * (digits * Nat.pow 2 low * d * unit) := by
    ac_rfl
  rw [hleft, Nat.mul_le_mul_left_iff (by decide), Nat.mul_le_mul_right_iff hpos]

theorem overflow_pos : 0 < Double.overflow := by
  rw [overflow_eq]
  generalize 970 = low
  exact Nat.mul_pos (by decide) (Nat.two_pow_pos low)

theorem lt_ten_pow_of_log2 {digits places : Nat} (h : digits.log2 < places) :
    digits < Nat.pow 10 places := by
  calc digits < 2 ^ (digits.log2 + 1) := Nat.lt_log2_self
    _ ≤ 2 ^ places := Nat.pow_le_pow_right (by decide) h
    _ ≤ 10 ^ places := Nat.pow_le_pow_left (by decide) places

/-- A decimal is rounded to infinity exactly if it is too large. -/
theorem ofDecimal?_eq_none_iff {d : Decimal} (hd : d.exponent ≤ 0) :
    ofDecimal? d = none ↔ Double.overflow * Nat.pow 10 (-d.exponent).toNat ≤ d.digits := by
  have hpos : 0 < Nat.pow 10 (-d.exponent).toNat := Nat.pow_pos (by decide)
  have hle := Nat.le_mul_of_pos_left (Nat.pow 10 (-d.exponent).toNat) overflow_pos
  unfold ofDecimal?
  by_cases hzero : d.digits = 0
  · rw [if_pos hzero, hzero]
    simp only [reduceCtorEq, false_iff]
    omega
  rw [if_neg hzero, if_neg (by omega)]
  by_cases hsmall : d.exponent < -(400 + d.digits.log2 : Int)
  · rw [if_pos hsmall]
    have hdigits : d.digits < Nat.pow 10 (-d.exponent).toNat := lt_ten_pow_of_log2 (by omega)
    simp only [reduceCtorEq, false_iff]
    omega
  · have hwhole : d.exponent.toNat = 0 := by omega
    rw [if_neg hsmall, hwhole, ofRatio?_eq_none_iff hpos]
    change _ ≤ d.digits * 1 ↔ _
    rw [Nat.mul_one]

end Magnitude

end TypedIsl
