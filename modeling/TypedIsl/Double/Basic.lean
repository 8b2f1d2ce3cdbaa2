/-!
# Double precision numbers

Finite magnitudes are whole multiples of `2 ^ -1074`, kept as a significand of at most 53 bits and
a power of two. Every magnitude has one representation, so equality of values is equality of
representations. Ratios of natural numbers are rounded to the nearest magnitude, a tie going to
the even significand.
-/

namespace TypedIsl

/-- A finite magnitude, `significand * 2 ^ scale` in units of `2 ^ -1074`. -/
structure Magnitude where
  significand : Nat
  scale : Nat
  significand_lt : significand < Nat.pow 2 53
  scale_le : scale ≤ 2045
  normal : scale = 0 ∨ Nat.pow 2 52 ≤ significand
deriving DecidableEq

inductive Double where
  | finite (negative : Bool) (magnitude : Magnitude)
  | infinite (negative : Bool)
  | nan
deriving DecidableEq

/-- The natural number nearest to `n / d`; of two that are equally near, the even one. -/
def roundHalfEven (n d : Nat) : Nat :=
  if d < 2 * (n % d) ∨ (2 * (n % d) = d ∧ n / d % 2 = 1) then n / d + 1 else n / d

theorem le_roundHalfEven (n d : Nat) : n / d ≤ roundHalfEven n d := by
  unfold roundHalfEven
  split <;> omega

theorem roundHalfEven_le (n d : Nat) : roundHalfEven n d ≤ n / d + 1 := by
  unfold roundHalfEven
  split <;> omega

namespace Magnitude

def zero : Magnitude := ⟨0, 0, by decide, by decide, .inl rfl⟩

/-- The number of units of `2 ^ -1074` in the magnitude. -/
def units (m : Magnitude) : Nat :=
  m.significand * Nat.pow 2 m.scale

/-- The power of two at which a quotient is cut off so that 53 bits remain, or none at all if it
has no more than that. -/
def scaleFor (quotient : Nat) : Nat :=
  quotient.log2 - 52

theorem div_scaleFor_lt (q : Nat) : q / Nat.pow 2 (scaleFor q) < Nat.pow 2 53 := by
  simp only [Nat.pow_eq]
  rw [Nat.div_lt_iff_lt_mul (Nat.two_pow_pos _), ← Nat.pow_add]
  exact Nat.lt_of_lt_of_le Nat.lt_log2_self
    (Nat.pow_le_pow_right (by decide) (by unfold scaleFor; omega))

theorem le_div_scaleFor {q : Nat} (h : scaleFor q ≠ 0) : Nat.pow 2 52 ≤ q / Nat.pow 2 (scaleFor q) := by
  simp only [Nat.pow_eq]
  rw [Nat.le_div_iff_mul_le (Nat.two_pow_pos _), ← Nat.pow_add]
  have hq : q ≠ 0 := by
    rintro rfl
    exact h rfl
  exact Nat.le_trans
    (Nat.pow_le_pow_right (by decide) (by unfold scaleFor at h ⊢; omega))
    (Nat.log2_self_le hq)

/-- The significand of `n / d` units, before a carry. -/
def significandFor (n d : Nat) : Nat :=
  roundHalfEven n (d * Nat.pow 2 (scaleFor (n / d)))

theorem significandFor_le (n d : Nat) : significandFor n d ≤ Nat.pow 2 53 := by
  have h := div_scaleFor_lt (n / d)
  rw [Nat.div_div_eq_div_mul] at h
  exact Nat.le_trans (roundHalfEven_le _ _) h

theorem le_significandFor (n d : Nat) :
    scaleFor (n / d) = 0 ∨ Nat.pow 2 52 ≤ significandFor n d := by
  by_cases h : scaleFor (n / d) = 0
  · exact .inl h
  · right
    have hq := le_div_scaleFor h
    rw [Nat.div_div_eq_div_mul] at hq
    exact Nat.le_trans hq (le_roundHalfEven _ _)

/-- The magnitude nearest to `n / d` units, ties going to the even significand; `none` if it
would reach `2 ^ 1024`. -/
def ofUnits? (n d : Nat) : Option Magnitude :=
  if carry : significandFor n d = Nat.pow 2 53 then
    if h : scaleFor (n / d) + 1 ≤ 2045 then
      some ⟨Nat.pow 2 52, scaleFor (n / d) + 1, by decide, h, .inr (Nat.le_refl _)⟩
    else none
  else
    if h : scaleFor (n / d) ≤ 2045 then
      some ⟨significandFor n d, scaleFor (n / d),
        Nat.lt_of_le_of_ne (significandFor_le n d) carry, h, le_significandFor n d⟩
    else none

/-- The magnitude nearest to `n / d`. -/
def ofRatio? (n d : Nat) : Option Magnitude :=
  ofUnits? (n * Nat.pow 2 1074) d

end Magnitude

end TypedIsl
