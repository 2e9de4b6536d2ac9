import Mathlib.Algebra.Order.Floor.Semiring
import Mathlib.Data.Int.Log
import Mathlib.Data.Rat.Floor
import Mathlib.Tactic.Linarith
import Mathlib.Tactic.NormNum

/-!
# Rounding to Double Precision

A number is rounded to double precision by writing it as a whole number of units, where the unit is
a power of two: the nearest whole number is taken, and of two that are equally near the even one.
The unit is such that 53 binary digits are used, unless it would have to be less than the least one,
`2 ^ (-1074)`. The greatest number that can be represented is `(2 ^ 53 - 1) * 2 ^ 971`; what is
rounded beyond it is infinite.

Half a unit above the greatest number is the number that is equally near to it and to `2 ^ 1024`. As
`2 ^ 53 - 1` is odd, it is rounded up: exactly the numbers below it are rounded to finite ones.

## Main results

* `exists_nearest_even`, `Double.exists_roundsTo`: every number can be rounded.
* `Double.RoundsTo.le_greatest_iff`: which numbers are not rounded beyond the greatest one.
* `Double.isFinite_iff`: the numbers that are rounded to finite ones.
-/

namespace LinkExpr

/-- Of the two whole numbers around a number, one is nearest, or both are and one of them is
even. -/
theorem exists_nearest_even {q : ℚ} (hq : 0 ≤ q) :
    ∃ m : ℕ, |q - m| ≤ 1 / 2 ∧ (|q - m| = 1 / 2 → Even m) := by
  have hlower : (⌊q⌋₊ : ℚ) ≤ q := Nat.floor_le hq
  have hupper : q < ⌊q⌋₊ + 1 := Nat.lt_floor_add_one q
  generalize ⌊q⌋₊ = n at hlower hupper
  have hbelow : |q - n| = q - n := abs_of_nonneg (by linarith)
  have habove : |q - (n + 1 : ℕ)| = n + 1 - q := by
    rw [Nat.cast_add_one, abs_sub_comm]
    exact abs_of_nonneg (by linarith)
  rcases lt_trichotomy (q - n) (1 / 2) with hlt | heq | hgt
  · exact ⟨n, by rw [hbelow]; exact hlt.le, fun h => absurd (hbelow.symm.trans h) hlt.ne⟩
  · rcases Nat.even_or_odd n with heven | hodd
    · exact ⟨n, by rw [hbelow, heq], fun _ => heven⟩
    · exact ⟨n + 1, by rw [habove]; linarith, fun _ => hodd.add_one⟩
  · refine ⟨n + 1, by rw [habove]; linarith, fun h => ?_⟩
    rw [habove] at h
    linarith

namespace Double

/-- A number that is not negative is rounded to `m` units of `2 ^ e`. There is no upper bound for
the exponent here. -/
structure RoundsTo (x : ℚ) (m : ℕ) (e : ℤ) : Prop where
  /-- No unit is less than the least one. -/
  least : -1074 ≤ e
  /-- There are at most 53 binary digits. -/
  short : x < 2 ^ 53 * 2 ^ e
  /-- There are as many, unless the unit is the least one. -/
  precise : e = -1074 ∨ 2 ^ 52 * 2 ^ e ≤ x
  /-- No other number of units is nearer. -/
  near : |x - m * 2 ^ e| ≤ 2 ^ e / 2
  /-- If another number of units is as near, this one is even. -/
  even : |x - m * 2 ^ e| = 2 ^ e / 2 → Even m

/-- The greatest number of double precision. -/
def greatest : ℚ := (2 ^ 53 - 1) * 2 ^ (971 : ℤ)

/-- A number that is not rounded beyond the greatest one. -/
def IsFinite (x : ℚ) : Prop := ∃ m e, RoundsTo x m e ∧ m * 2 ^ e ≤ greatest

/-- The least number that is rounded beyond the greatest one. -/
def threshold : ℚ := 2 ^ 1024 - 2 ^ 970

variable {x : ℚ} {m : ℕ} {e : ℤ}

theorem unit_pos (e : ℤ) : (0 : ℚ) < 2 ^ e := zpow_pos (by norm_num) e

/-- The threshold is half a unit above the greatest number. -/
theorem threshold_eq : threshold = (2 ^ 53 - 1 / 2) * 2 ^ (971 : ℤ) := by
  have hgreat : (2 : ℚ) ^ 1024 = 2 ^ 53 * 2 ^ (971 : ℤ) := by
    rw [zpow_ofNat, ← pow_add]
  have hsmall : (2 : ℚ) ^ 970 * 2 = 2 ^ (971 : ℤ) := by
    rw [zpow_ofNat, ← pow_succ]
  rw [threshold, hgreat, ← hsmall]
  generalize (2 : ℚ) ^ 970 = v
  ring

/-- There is a unit for every number that is not negative. -/
theorem exists_unit (hx : 0 ≤ x) :
    ∃ e : ℤ, -1074 ≤ e ∧ x < 2 ^ 53 * 2 ^ e ∧ (e = -1074 ∨ 2 ^ 52 * 2 ^ e ≤ x) := by
  have hscale : ∀ (k : ℕ) (e : ℤ), (2 : ℚ) ^ k * 2 ^ e = 2 ^ (k + e) := by
    intro k e
    rw [zpow_add₀ two_ne_zero, zpow_natCast]
  have hlog : x < 2 ^ (Int.log 2 x + 1) := Int.lt_zpow_succ_log_self one_lt_two x
  simp only [hscale]
  by_cases hsmall : Int.log 2 x - 52 ≤ -1074 ∨ x = 0
  · refine ⟨-1074, le_rfl, ?_, .inl rfl⟩
    rcases hsmall with hsmall | rfl
    · exact hlog.trans_le (zpow_le_zpow_right₀ one_le_two (by omega))
    · exact unit_pos _
  · rw [not_or, not_le] at hsmall
    have hpos : 0 < x := lt_of_le_of_ne hx (Ne.symm hsmall.2)
    have hlow : (2 : ℚ) ^ Int.log 2 x ≤ x := Int.zpow_log_le_self one_lt_two hpos
    refine ⟨Int.log 2 x - 52, hsmall.1.le, ?_, .inr ?_⟩
    · exact hlog.trans_le (zpow_le_zpow_right₀ one_le_two (by omega))
    · exact (zpow_le_zpow_right₀ one_le_two (by omega)).trans hlow

/-- **Every number** that is not negative can be rounded. -/
theorem exists_roundsTo (hx : 0 ≤ x) : ∃ m e, RoundsTo x m e := by
  obtain ⟨e, hleast, hshort, hprecise⟩ := exists_unit hx
  have hpos := unit_pos e
  obtain ⟨m, hnear, heven⟩ := exists_nearest_even (div_nonneg hx hpos.le)
  have hdistance : |x - m * 2 ^ e| = |x / 2 ^ e - m| * 2 ^ e := by
    conv_rhs => rw [← abs_of_pos hpos, ← abs_mul, abs_of_pos hpos]
    rw [sub_mul, div_mul_cancel₀ _ hpos.ne']
  have hhalf : (2 : ℚ) ^ e / 2 = 1 / 2 * 2 ^ e := by ring
  refine ⟨m, e, hleast, hshort, hprecise, ?_, fun htie => heven ?_⟩
  · rw [hdistance, hhalf]
    exact mul_le_mul_of_nonneg_right hnear hpos.le
  · rw [hdistance, hhalf] at htie
    exact mul_right_cancel₀ hpos.ne' htie

namespace RoundsTo

/-- A number is not less than what it is rounded to, but for half a unit. -/
theorem upper (h : RoundsTo x m e) : m * 2 ^ e ≤ x + 2 ^ e / 2 := by
  have := (abs_le.mp h.near).1
  linarith

/-- A number is not greater than what it is rounded to, but for half a unit. -/
theorem lower (h : RoundsTo x m e) : x ≤ m * 2 ^ e + 2 ^ e / 2 := by
  have := (abs_le.mp h.near).2
  linarith

/-- Small units are far below the threshold. -/
theorem below (h : RoundsTo x m e) (he : e ≤ 970) : m * 2 ^ e ≤ greatest ∧ x < threshold := by
  have hdouble : (2 : ℚ) ^ (970 : ℤ) * 2 = 2 ^ (971 : ℤ) := (zpow_add_one₀ two_ne_zero 970).symm
  have hunit : (2 : ℚ) ^ e ≤ 2 ^ (970 : ℤ) := zpow_le_zpow_right₀ one_le_two he
  have hpos := unit_pos 970
  have hupper := h.upper
  have hshort := h.short
  rw [greatest, threshold_eq, ← hdouble]
  generalize (2 : ℚ) ^ (970 : ℤ) = v at hunit hpos ⊢
  generalize (2 : ℚ) ^ e = u at hunit hupper hshort ⊢
  constructor <;> linarith

/-- Great units are beyond the threshold. -/
theorem beyond (h : RoundsTo x m e) (he : 972 ≤ e) : greatest < m * 2 ^ e ∧ threshold ≤ x := by
  have hdouble : (2 : ℚ) ^ (971 : ℤ) * 2 = 2 ^ (972 : ℤ) := (zpow_add_one₀ two_ne_zero 971).symm
  have hunit : (2 : ℚ) ^ (971 : ℤ) * 2 ≤ 2 ^ e :=
    hdouble.trans_le (zpow_le_zpow_right₀ one_le_two he)
  have hpos := unit_pos 971
  have hprecise : 2 ^ 52 * 2 ^ e ≤ x := h.precise.resolve_left (by omega)
  have hlower := h.lower
  rw [greatest, threshold_eq]
  generalize (2 : ℚ) ^ (971 : ℤ) = v at hunit hpos ⊢
  generalize (2 : ℚ) ^ e = u at hunit hprecise hlower ⊢
  -- the nearest number of units has 53 binary digits, too
  have hdigits : 2 ^ 52 ≤ m := by
    by_contra hm
    have hcast : (m : ℚ) + 1 ≤ 2 ^ 52 := by exact_mod_cast Nat.not_le.mp hm
    have hmul : ((m : ℚ) + 1) * u ≤ 2 ^ 52 * u :=
      mul_le_mul_of_nonneg_right hcast (by linarith)
    linarith
  have hmul : (2 : ℚ) ^ 52 * u ≤ m * u :=
    mul_le_mul_of_nonneg_right (by exact_mod_cast hdigits) (by linarith)
  constructor <;> linarith

/-- With the unit of the greatest number the half above it decides. -/
theorem at_greatest (h : RoundsTo x m 971) :
    m * 2 ^ (971 : ℤ) ≤ greatest ↔ x < threshold := by
  have hpos := unit_pos 971
  have hupper := h.upper
  have hlower := h.lower
  have heven := h.even
  rw [greatest, threshold_eq]
  generalize (2 : ℚ) ^ (971 : ℤ) = u at hpos hupper hlower heven ⊢
  rw [mul_le_mul_iff_left₀ hpos]
  constructor
  · intro hm
    have hmul : (m : ℚ) * u ≤ (2 ^ 53 - 1) * u := mul_le_mul_of_nonneg_right hm hpos.le
    refine lt_of_le_of_ne (by linarith) fun htie => ?_
    -- the number is equally near to the next number of units, and so this one is even
    have hcast : (m : ℚ) = 2 ^ 53 - 1 := by
      refine le_antisymm hm (le_of_mul_le_mul_right ?_ hpos)
      linarith
    have hodd : m = 2 ^ 53 - 1 := by
      have hsucc : (m : ℚ) + 1 = 2 ^ 53 := by linarith
      have hsucc' : m + 1 = 2 ^ 53 := by exact_mod_cast hsucc
      omega
    have hm_even : Even m := by
      refine heven ?_
      rw [htie, hcast, ← sub_mul, abs_of_pos (mul_pos (by norm_num) hpos)]
      ring
    rw [hodd] at hm_even
    exact absurd hm_even (by decide)
  · intro hx
    have hlt : (m : ℚ) < 2 ^ 53 := by
      refine lt_of_mul_lt_mul_right ?_ hpos.le
      linarith
    have hsucc : m + 1 ≤ 2 ^ 53 := by exact_mod_cast hlt
    have hcast : (m : ℚ) + 1 ≤ 2 ^ 53 := by exact_mod_cast hsucc
    linarith

/-- **What is rounded to a finite number** is below the threshold. -/
theorem le_greatest_iff (h : RoundsTo x m e) : m * 2 ^ e ≤ greatest ↔ x < threshold := by
  rcases lt_trichotomy e 971 with hlt | rfl | hgt
  · have hbelow := h.below (by omega)
    exact iff_of_true hbelow.1 hbelow.2
  · exact h.at_greatest
  · have hbeyond := h.beyond (by omega)
    exact iff_of_false hbeyond.1.not_ge hbeyond.2.not_gt

end RoundsTo

/-- **The numbers that are rounded to finite ones** are those below the threshold. -/
theorem isFinite_iff (hx : 0 ≤ x) : IsFinite x ↔ x < threshold := by
  constructor
  · rintro ⟨m, e, hround, hle⟩
    exact hround.le_greatest_iff.mp hle
  · intro hlt
    obtain ⟨m, e, hround⟩ := exists_roundsTo hx
    exact ⟨m, e, hround, hround.le_greatest_iff.mpr hlt⟩

end Double

end LinkExpr
