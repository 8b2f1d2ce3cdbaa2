import TypedIsl.Double.Text
import TypedIsl.Proofs.Double.Rounding

/-!
# Emitted doubles are read back

The emitted text of a magnitude has digits on both sides of a point, and the decimal that it
spells is rounded to the magnitude again.
-/

namespace TypedIsl

/-! ## Runs of digits -/

theorem natOfDigits_append_singleton (cs : List Char) (c : Char) :
    natOfDigits (cs ++ [c]) = 10 * natOfDigits cs + (c.toNat - '0'.toNat) := by
  simp [natOfDigits]

theorem natOfDigits_toDigits (n : Nat) : natOfDigits (Nat.toDigits 10 n) = n :=
  Nat.ofDigitChars_ten_toDigits

theorem natOfDigits_zeros_append (count : Nat) (cs : List Char) :
    natOfDigits (List.replicate count '0' ++ cs) = natOfDigits cs := by
  induction count with
  | zero => rfl
  | succ count ih =>
      rw [List.replicate_succ, List.cons_append]
      exact ih

theorem isDigit_of_mem_toDigits {n : Nat} {c : Char} (h : c ∈ Nat.toDigits 10 n) :
    c.isDigit = true :=
  Nat.isDigit_of_mem_toDigits (by decide) (by decide) h

/-! ## Digits around a point -/

/-- The text has digits on both sides of a point, and spells the decimal. -/
def Decimal.SpelledBy (d : Decimal) (text : List Char) : Prop :=
  ∃ whole fraction, text = whole ++ '.' :: fraction ∧ whole ≠ [] ∧ fraction ≠ [] ∧
    (∀ c ∈ whole ++ fraction, c.isDigit = true) ∧ Decimal.ofDigits whole fraction = d

theorem Decimal.spelledBy_text {d : Decimal} (h : d.exponent < 0) :
    d.SpelledBy d.text.toList := by
  have hplaces : (-d.exponent).toNat ≠ 0 := by omega
  unfold Decimal.text
  rw [if_neg hplaces, String.toList_ofList]
  generalize hdigits : List.replicate ((-d.exponent).toNat + 1 -
    (Nat.toDigits 10 d.digits).length) '0' ++ Nat.toDigits 10 d.digits = digits
  have hvalue : natOfDigits digits = d.digits := by
    rw [← hdigits, natOfDigits_zeros_append, natOfDigits_toDigits]
  have hlength : (-d.exponent).toNat + 1 ≤ digits.length := by
    rw [← hdigits, List.length_append, List.length_replicate]
    omega
  have hall : ∀ c ∈ digits, c.isDigit = true := by
    intro c hc
    rw [← hdigits, List.mem_append] at hc
    rcases hc with hc | hc
    · rw [List.eq_of_mem_replicate hc]
      decide
    · exact isDigit_of_mem_toDigits hc
  refine ⟨digits.take (digits.length - (-d.exponent).toNat),
    digits.drop (digits.length - (-d.exponent).toNat), rfl, ?_, ?_, ?_, ?_⟩
  · apply List.ne_nil_of_length_pos
    rw [List.length_take]
    omega
  · apply List.ne_nil_of_length_pos
    rw [List.length_drop]
    omega
  · rw [List.take_append_drop]
    exact hall
  · have hfraction : -((digits.drop (digits.length - (-d.exponent).toNat)).length : Int) =
        d.exponent := by
      rw [List.length_drop]
      omega
    unfold Decimal.ofDigits
    rw [List.take_append_drop, hvalue, hfraction]

namespace Magnitude

variable {m : Magnitude}

/-! ## The shortest decimal -/

theorem ofDecimal?_of_multiple? {exponent : Int} {d : Decimal}
    (h : m.multiple? exponent = some d) : ofDecimal? d = some m := by
  unfold multiple? at h
  dsimp only at h
  split at h
  · rename_i hlower hupper
    split at h <;> simp only [Option.some.injEq] at h <;> subst h
    · exact of_decide_eq_true hlower
    · exact of_decide_eq_true hupper
  · rename_i hlower _
    simp only [Option.some.injEq] at h
    exact h ▸ of_decide_eq_true hlower
  · rename_i _ hupper
    simp only [Option.some.injEq] at h
    exact h ▸ of_decide_eq_true hupper
  · exact absurd h (by simp)

theorem mul_ten_pow_div (units places : Nat) :
    units * Nat.pow 10 places / (Nat.pow 2 places * Nat.pow 10 0) = units * Nat.pow 5 places := by
  simp only [Nat.pow_eq, Nat.pow_zero, Nat.mul_one]
  rw [show 10 = 5 * 2 from rfl, Nat.mul_pow, ← Nat.mul_assoc]
  exact Nat.mul_div_cancel _ (Nat.two_pow_pos _)

theorem mul_five_pow_mul_two_pow (units places : Nat) :
    units * Nat.pow 5 places * Nat.pow 10 0 * Nat.pow 2 places = units * Nat.pow 10 places := by
  simp only [Nat.pow_eq, Nat.pow_zero, Nat.mul_one]
  rw [Nat.mul_assoc, ← Nat.mul_pow]

theorem le_log2_mul_five_pow {units : Nat} (places : Nat) (h : units ≠ 0) :
    places ≤ (units * Nat.pow 5 places).log2 := by
  have hle : 2 ^ places ≤ units * 5 ^ places := by
    calc 2 ^ places ≤ 5 ^ places := Nat.pow_le_pow_left (by decide) _
      _ ≤ units * 5 ^ places := Nat.le_mul_of_pos_left _ (Nat.pos_of_ne_zero h)
  have hne : units * 5 ^ places ≠ 0 :=
    Nat.ne_of_gt (Nat.lt_of_lt_of_le (Nat.two_pow_pos _) hle)
  exact (Nat.le_log2 hne).mpr hle

theorem units_ne_zero (h : ¬m.IsWhole) : m.units ≠ 0 := by
  intro hzero
  rw [eq_zero_of_units m hzero] at h
  exact h isWhole_zero

section Finest

variable {places : Nat} (hplaces : places = 1074)

include hplaces

/-- Every magnitude is a multiple of `10 ^ -1074`. -/
theorem ofDecimal?_finest (hm : m.units ≠ 0) :
    ofDecimal? ⟨(m.inUnitsOf (-places)).1 / (m.inUnitsOf (-places)).2, -places⟩ = some m := by
  have hfraction : (-(-places : Int)).toNat = places := by omega
  have hwhole : (-places : Int).toNat = 0 := by omega
  have hlog := le_log2_mul_five_pow places hm
  unfold inUnitsOf
  dsimp only
  rw [hfraction, hwhole, ← hplaces, mul_ten_pow_div]
  apply ofDecimal?_of_eq
  · dsimp only
    omega
  · dsimp only
    omega
  · dsimp only
    rw [hfraction, hwhole, ← hplaces]
    exact mul_five_pow_mul_two_pow _ _

theorem ofDecimal?_shortestFrom (hm : m.units ≠ 0) {exponent : Int} {steps : Nat}
    (h : exponent - steps = -places) : ofDecimal? (m.shortestFrom exponent steps) = some m := by
  induction steps generalizing exponent with
  | zero =>
      have hexponent : exponent = -places := by omega
      have hfinest := ofDecimal?_finest hplaces hm
      rw [hexponent, shortestFrom]
      generalize m.inUnitsOf (-places) = ratio at hfinest ⊢
      exact hfinest
  | succ steps ih =>
      unfold shortestFrom
      split
      · rename_i hmultiple
        exact ofDecimal?_of_multiple? hmultiple
      · apply ih
        omega

end Finest

theorem ofDecimal?_shortest (hm : m.units ≠ 0) : ofDecimal? m.shortest = some m := by
  apply ofDecimal?_shortestFrom rfl hm
  generalize m.integralDigits = digits
  omega

/-- A magnitude that is not a whole number is not written without a fractional part. -/
theorem exponent_shortest_neg (h : ¬m.IsWhole) : m.shortest.exponent < 0 := by
  apply Int.not_le.mp
  intro hwhole
  exact h (isWhole_of_ofDecimal? hwhole (ofDecimal?_shortest (units_ne_zero h)))

/-! ## Emitted text -/

theorem spelledBy_integer {n places : Nat} (hplaces : places = 1074)
    (h : n * Nat.pow 2 places = m.units) :
    ∃ d : Decimal, d.SpelledBy (toString n ++ ".0").toList ∧ ofDecimal? d = some m := by
  refine ⟨⟨10 * n, -1⟩, ⟨Nat.toDigits 10 n, ['0'], ?_, Nat.toDigits_ne_nil, by simp, ?_, ?_⟩, ?_⟩
  · rw [String.toList_append, Nat.toString_eq_ofList_toDigits, String.toList_ofList]
    rfl
  · intro c hc
    rw [List.mem_append, List.mem_singleton] at hc
    rcases hc with hc | rfl
    · exact isDigit_of_mem_toDigits hc
    · decide
  · unfold Decimal.ofDigits
    rw [natOfDigits_append_singleton, natOfDigits_toDigits]
    rfl
  · have hfraction : (-(-1) : Int).toNat = 1 := rfl
    have hwhole : (-1 : Int).toNat = 0 := rfl
    apply ofDecimal?_of_eq <;> dsimp only
    · omega
    · omega
    · rw [hfraction, hwhole, ← h, ← hplaces]
      simp only [Nat.pow_eq, Nat.pow_zero, Nat.mul_one, Nat.pow_one]
      rw [Nat.mul_assoc, Nat.mul_comm]

theorem integer?_eq_some {n : Nat} (h : m.integer? = some n) :
    ∃ places, places = 1074 ∧ n * Nat.pow 2 places = m.units := by
  refine ⟨1074, rfl, ?_⟩
  unfold integer? at h
  generalize 1074 = places at h ⊢
  split at h
  · rename_i hmod
    simp only [Option.some.injEq] at h
    rw [← h]
    exact Nat.div_mul_cancel (Nat.dvd_of_mod_eq_zero hmod)
  · exact absurd h (by simp)

theorem not_isWhole_of_integer? (h : m.integer? = none) : ¬m.IsWhole := by
  unfold integer? at h
  unfold IsWhole
  generalize 1074 = places at h ⊢
  intro hdvd
  rw [if_pos (Nat.mod_eq_zero_of_dvd hdvd)] at h
  exact absurd h (by simp)

/-- The emitted text of a magnitude spells a decimal that is rounded to it. -/
theorem code_spelled (m : Magnitude) :
    ∃ d : Decimal, d.SpelledBy m.code.toList ∧ ofDecimal? d = some m := by
  unfold code
  split
  · rename_i n hinteger
    obtain ⟨places, hplaces, hunits⟩ := integer?_eq_some hinteger
    exact spelledBy_integer hplaces hunits
  · rename_i hinteger
    have hwhole := not_isWhole_of_integer? hinteger
    have hne := units_ne_zero hwhole
    have hsignificand : m.significand ≠ 0 := by
      intro hzero
      rw [units_eq, hzero, Nat.zero_mul] at hne
      exact hne rfl
    refine ⟨m.shortest, ?_, ofDecimal?_shortest hne⟩
    unfold text
    rw [if_neg hsignificand]
    exact Decimal.spelledBy_text (exponent_shortest_neg hwhole)

end Magnitude

end TypedIsl
