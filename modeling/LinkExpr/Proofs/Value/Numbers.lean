import LinkExpr.Proofs.Value.Decimals
import LinkExpr.Proofs.Value.Doubles
import LinkExpr.Value.ValueType

/-!
# Numbers Are Finite Decimals

A text is accepted as a number by reading it as a numeral and comparing the significand with a
bound, both multiplied by powers of ten so that no fraction occurs. Seen as rational numbers this
compares the size of the number that is denoted with `2 ^ 1024 - 2 ^ 970`, and that number is the
least one that is rounded beyond the greatest number in double precision.

So a text is accepted exactly if it is in decimal notation and what it denotes is finite after it
has been rounded. How long the text is and how its digits and its exponent share in the size of the
number make no difference, and no number is too small.

## Main results

* `Numeral.belowScaled_iff_lt`, `Numeral.isFinite_iff`: the comparison as one of rational numbers.
* `isNumber_text`, `exists_decimal_of_isNumber`: which texts are accepted.
* `numbers_are_finite_decimals`: the same for the check of values, with what is rejected.
-/

namespace LinkExpr

namespace Numeral

/-! ### Comparing with the bound -/

theorem cast_powerOfTen (k : ℕ) : (powerOfTen k : ℚ) = 10 ^ k := Nat.cast_pow 10 k

/-- **The comparison** of a scaled number with a bound is that of the rational numbers. -/
theorem belowScaled_iff_lt {m bound : ℕ} (hbound : 0 < bound) (e : ℤ) :
    belowScaled m e bound = true ↔ (m : ℚ) * 10 ^ e < bound := by
  have hscale : (10 : ℚ) ^ e = 10 ^ e.toNat / 10 ^ (-e).toNat := by
    conv_lhs => rw [← Int.toNat_sub_toNat_neg e]
    rw [zpow_sub₀ (by norm_num), zpow_natCast, zpow_natCast]
  have hpos : (0 : ℚ) < 10 ^ (-e).toNat := pow_pos (by norm_num) _
  rw [belowScaled_iff hbound, hscale, ← mul_div_assoc, div_lt_iff₀ hpos,
    ← cast_powerOfTen, ← cast_powerOfTen, ← Nat.cast_mul, ← Nat.cast_mul, Nat.cast_lt]

/-- The bound is half a unit above the greatest number in double precision. -/
theorem cast_finiteBound : (finiteBound : ℚ) = Double.threshold := by
  rw [finiteBound, Double.threshold]
  -- the exponents are taken apart from the powers, so that no power is computed
  have hexponents : 970 ≤ 1024 := by decide
  generalize 970 = k at hexponents ⊢
  generalize 1024 = l at hexponents ⊢
  have hle : Nat.pow 2 k ≤ Nat.pow 2 l := Nat.pow_le_pow_right (by decide) hexponents
  rw [Nat.cast_sub hle]
  exact congrArg₂ _ (Nat.cast_pow 2 l) (Nat.cast_pow 2 k)

theorem finiteBound_pos : 0 < finiteBound := by
  rw [finiteBound]
  have hexponents : 970 < 1024 := by decide
  generalize 970 = k at hexponents ⊢
  generalize 1024 = l at hexponents ⊢
  exact Nat.sub_pos_of_lt (Nat.pow_lt_pow_right (by decide) hexponents)

/-- A numeral is finite if the size of what it stands for is below the threshold. -/
theorem isFinite_iff (n : Numeral) : n.isFinite = true ↔ |n.value| < Double.threshold := by
  rw [isFinite, belowScaled_iff_lt finiteBound_pos, cast_finiteBound, abs_value]

end Numeral

/-! ### Texts of numbers -/

section Texts

variable {s : String} {c : Char}

/-- **A text in decimal notation** is accepted if the size of what it denotes is below the
threshold. -/
theorem isNumber_text (d : Decimal) : isNumber d.text = true ↔ |d.value| < Double.threshold := by
  have hread : Numeral.read? d.text.toList = some d.numeral := by
    rw [Decimal.text, String.toList_ofList]
    exact Numeral.read?_eq_some_iff.mpr ⟨d, rfl, rfl⟩
  rw [isNumber, hread, ← d.value_numeral]
  exact d.numeral.isFinite_iff

/-- **No other text** is accepted. -/
theorem exists_decimal_of_isNumber (h : isNumber s = true) : ∃ d : Decimal, s = d.text := by
  unfold isNumber at h
  split at h
  · rename_i n hread
    obtain ⟨d, hd, -⟩ := Numeral.read?_eq_some_iff.mp hread
    exact ⟨d, by rw [Decimal.text, ← hd, String.ofList_toList]⟩
  · cases h

theorem isNumber_iff :
    isNumber s = true ↔ ∃ d : Decimal, s = d.text ∧ |d.value| < Double.threshold := by
  constructor
  · intro h
    obtain ⟨d, rfl⟩ := exists_decimal_of_isNumber h
    exact ⟨d, rfl, (isNumber_text d).mp h⟩
  · rintro ⟨d, rfl, hd⟩
    exact (isNumber_text d).mpr hd

/-- A text is accepted as a number, or it is rejected as it is given. -/
theorem validate_numeric_cases (s : String) :
    (isNumber s = true ∧ ValueType.numeric.validate s = .ok ()) ∨
      (isNumber s = false ∧ ValueType.numeric.validate s = .error (.notNumeric s)) := by
  rw [ValueType.validate]
  cases isNumber s with
  | true => exact .inl ⟨rfl, rfl⟩
  | false => exact .inr ⟨rfl, rfl⟩

theorem validate_numeric_eq_ok_iff : ValueType.numeric.validate s = .ok () ↔ isNumber s = true := by
  rcases validate_numeric_cases s with ⟨hs, hok⟩ | ⟨hs, herror⟩
  · rw [hs, hok]
    exact iff_of_true rfl rfl
  · rw [hs, herror]
    exact iff_of_false nofun nofun

/-! ### Texts that are not numbers -/

/-- A text with any character besides digits and marks is not in decimal notation. -/
theorem isNumber_eq_false_of_mem (hc : c ∈ s.toList) (hdigit : c.isDigit = false)
    (hmark : c ∉ Decimal.marks) : isNumber s = false := by
  rw [← Bool.not_eq_true]
  intro h
  obtain ⟨d, rfl⟩ := exists_decimal_of_isNumber h
  rw [Decimal.text, String.toList_ofList] at hc
  rcases Decimal.isDigit_or_mem_marks_of_mem_chars hc with h | h
  · exact Bool.false_ne_true (hdigit.symm.trans h)
  · exact hmark h

/-- The words for numbers that are infinite, or for what is not a number, in lower case. -/
def nonFiniteWords : List String := ["inf", "infinity", "nan"]

/-- A text is put in lower case character by character. -/
theorem toList_toLower (s : String) : s.toLower.toList = s.toList.map Char.toLower :=
  String.toList_map

/-- A character that is an `n` in lower case is neither a digit nor a mark. -/
theorem not_isDigit_of_toLower (h : c.toLower = 'n') : c.isDigit = false ∧ c ∉ Decimal.marks := by
  constructor
  · rw [← Bool.not_eq_true]
    intro hdigit
    obtain ⟨d, rfl⟩ := Digits.exists_char hdigit
    revert h
    decide +revert
  · intro hmark
    simp only [Decimal.marks, List.mem_cons, List.not_mem_nil, or_false] at hmark
    rcases hmark with rfl | rfl | rfl | rfl | rfl <;> exact absurd h (by decide)

/-- Each of these words, in whatever case, has a letter that decimal notation does not use. -/
theorem exists_mem_of_toLower_mem (h : s.toLower ∈ nonFiniteWords) :
    ∃ c ∈ s.toList, c.isDigit = false ∧ c ∉ Decimal.marks := by
  have hwords : ∀ w ∈ nonFiniteWords, 'n' ∈ w.toList := by decide
  have hn : 'n' ∈ s.toLower.toList := hwords _ h
  rw [toList_toLower, List.mem_map] at hn
  obtain ⟨c, hc, hlower⟩ := hn
  exact ⟨c, hc, not_isDigit_of_toLower hlower⟩

/-- The empty text has no digits. -/
theorem isNumber_empty : isNumber "" = false := rfl

end Texts

/-- **Numbers are finite decimals.** A text is accepted as a number exactly if it is in decimal
notation and the size of the number that it denotes is below `2 ^ 1024 - 2 ^ 970`; any other text is
rejected as it is given. The texts in decimal notation that are accepted are those whose numbers are
finite after they are rounded to double precision, and of two such numbers the smaller one is
accepted if the greater one is. The empty text is rejected, every text with a character besides
digits, signs, points and the markers `e` and `E`, and the words for infinity and for what is not a
number, in any case and with any sign. -/
theorem numbers_are_finite_decimals (s : String) :
    (ValueType.numeric.validate s = .ok () ↔
      ∃ d : Decimal, s = d.text ∧ |d.value| < 2 ^ 1024 - 2 ^ 970) ∧
    (ValueType.numeric.validate s = .ok () ∨
      ValueType.numeric.validate s = .error (.notNumeric s)) ∧
    (∀ d : Decimal, s = d.text →
      (ValueType.numeric.validate s = .ok () ↔ |d.value| < 2 ^ 1024 - 2 ^ 970) ∧
      (ValueType.numeric.validate s = .ok () ↔ Double.IsFinite |d.value|) ∧
      (ValueType.numeric.validate s = .ok () →
        ∀ e : Decimal, |e.value| ≤ |d.value| → ValueType.numeric.validate e.text = .ok ())) ∧
    (s = "" ∨ (∃ c ∈ s.toList, c.isDigit = false ∧ c ∉ Decimal.marks) ∨
        (∃ (sign : Sign) (word : String), s = String.ofList sign.chars ++ word ∧
          word.toLower ∈ nonFiniteWords) →
      ValueType.numeric.validate s = .error (.notNumeric s)) := by
  simp only [validate_numeric_eq_ok_iff]
  refine ⟨isNumber_iff, ?_, ?_, ?_⟩
  · rcases validate_numeric_cases s with ⟨haccepted, -⟩ | ⟨-, hrejected⟩
    · exact .inl haccepted
    · exact .inr hrejected
  · rintro d rfl
    have hfinite := Double.isFinite_iff (abs_nonneg d.value)
    refine ⟨isNumber_text d, ?_, fun h e hle => ?_⟩
    · rw [isNumber_text, hfinite]
    · rw [isNumber_text] at h ⊢
      exact hle.trans_lt h
  · intro h
    have hfalse : isNumber s = false := by
      rcases h with rfl | ⟨c, hc, hdigit, hmark⟩ | ⟨sign, word, rfl, hword⟩
      · exact isNumber_empty
      · exact isNumber_eq_false_of_mem hc hdigit hmark
      · obtain ⟨c, hc, hdigit, hmark⟩ := exists_mem_of_toLower_mem hword
        refine isNumber_eq_false_of_mem (c := c) ?_ hdigit hmark
        rw [String.toList_append]
        exact List.mem_append_right _ hc
    rw [ValueType.validate, hfalse]
    rfl

/-- Next to the greatest number in double precision, zero is accepted with whatever exponent;
infinity is not. -/
theorem zero_with_exponent_is_number :
    ValueType.numeric.validate "1.7976931348623158e308" = .ok () ∧
      ValueType.numeric.validate "0e99999" = .ok () ∧
      ValueType.numeric.validate "-Infinity" = .error (.notNumeric "-Infinity") := by
  have haccepted : ValueType.numeric.validate "1.7976931348623158e308" = .ok () := by
    decide +kernel
  obtain ⟨great, hgreat⟩ : ∃ d : Decimal, "1.7976931348623158e308" = d.text :=
    exists_decimal_of_isNumber (validate_numeric_eq_ok_iff.mp haccepted)
  obtain ⟨zero, htext, hzero⟩ : ∃ d : Decimal, "0e99999" = d.text ∧ d.value = 0 := by
    have hwhole : Digits.value [0] = 0 := rfl
    refine ⟨⟨.none, [0], none, some ⟨false, .none, [9, 9, 9, 9, 9], nofun⟩, nofun⟩, by decide, ?_⟩
    simp [Decimal.value, Decimal.fraction, hwhole]
  have hword : "Infinity".toLower = "infinity" := by
    rw [← String.toList_inj, toList_toLower]
    decide
  obtain ⟨-, -, hdecimal, -⟩ := numbers_are_finite_decimals "1.7976931348623158e308"
  obtain ⟨-, -, hsmaller⟩ := hdecimal great hgreat
  obtain ⟨-, -, -, hrejected⟩ := numbers_are_finite_decimals "-Infinity"
  refine ⟨haccepted, ?_, hrejected (.inr (.inr ⟨.minus, "Infinity", rfl, by rw [hword]; decide⟩))⟩
  rw [htext]
  refine hsmaller haccepted zero ?_
  rw [hzero, abs_zero]
  exact abs_nonneg _

end LinkExpr
