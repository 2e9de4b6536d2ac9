import LinkExpr.Proofs.Value.Digits
import Mathlib.Algebra.Order.Ring.Abs
import Mathlib.Data.List.TakeWhile
import Mathlib.Data.Rat.Lemmas
import Mathlib.Tactic.FieldSimp

/-!
# Decimal Notation

A number in decimal notation is an optional sign, digits with at most one point and at least one
digit, and possibly a marker `e` or `E` with an optional sign and at least one digit. It is
described here by its parts, apart from any reader: how it is written, and the rational number that
it denotes by the places of its digits.

The reader of numerals accepts exactly what can be written so. It keeps less than the notation does,
for it forgets whether a plus sign, a point without digits after it or a zero exponent was written,
but the number that is denoted can be told from what it keeps.

## Main results

* `Numeral.read?_eq_some_iff`: the reader accepts what is written in decimal notation.
* `Decimal.value_numeral`: the number is that of the numeral that is read.
* `Decimal.isDigit_or_mem_marks_of_mem_chars`: what characters are used.
-/

namespace LinkExpr

/-! ### Notation -/

/-- An optional sign. -/
inductive Sign
  | none
  | plus
  | minus
deriving DecidableEq, Repr

namespace Sign

/-- A sign as it is written. -/
def chars : Sign → List Char
  | none => []
  | plus => ['+']
  | minus => ['-']

/-- The factor that a sign stands for. -/
def factor : Sign → ℤ
  | none | plus => 1
  | minus => -1

end Sign

/-- A power of ten behind digits. -/
structure Exponent where
  /-- The marker is `E` and not `e`. -/
  upper : Bool
  sign : Sign
  digits : Digits
  digits_ne_nil : digits ≠ []

namespace Exponent

/-- An exponent as it is written. -/
def chars (x : Exponent) : List Char :=
  (if x.upper then 'E' else 'e') :: (x.sign.chars ++ x.digits.chars)

/-- The exponent as a number. -/
def value (x : Exponent) : ℤ := x.sign.factor * x.digits.value

end Exponent

/-- A number in decimal notation. -/
structure Decimal where
  sign : Sign
  whole : Digits
  /-- The digits behind the point, if there is one. -/
  fraction? : Option Digits
  exponent? : Option Exponent
  /-- There is a digit before the point or behind it. -/
  digits_ne_nil : whole ++ fraction?.getD [] ≠ []

namespace Decimal

/-- The digits behind the point. -/
def fraction (d : Decimal) : Digits := d.fraction?.getD []

/-- The power of ten that the number is multiplied by. -/
def exponent (d : Decimal) : ℤ := (d.exponent?.map Exponent.value).getD 0

/-- The point and the digits behind it as they are written. -/
def fractionChars : Option Digits → List Char
  | none => []
  | some ds => '.' :: ds.chars

/-- The exponent, if there is one, as it is written. -/
def exponentChars : Option Exponent → List Char
  | none => []
  | some x => x.chars

/-- A number as it is written. -/
def chars (d : Decimal) : List Char :=
  d.sign.chars ++ (d.whole.chars ++ (fractionChars d.fraction? ++ exponentChars d.exponent?))

/-- The text of a number. -/
def text (d : Decimal) : String := String.ofList d.chars

/-- The number that is denoted. -/
def value (d : Decimal) : ℚ :=
  d.sign.factor * (d.whole.value + d.fraction.value / 10 ^ d.fraction.length) * 10 ^ d.exponent

/-- What a reader keeps of a number. -/
def numeral (d : Decimal) : Numeral where
  negative := d.sign = .minus
  whole := d.whole.chars
  fraction := d.fraction.chars
  exponent := d.exponent

end Decimal

/-! ### First characters -/

section Heads

variable {c : Char} {fraction? : Option Digits} {exponent? : Option Exponent}

/-- An exponent begins with its marker. -/
theorem head?_exponentChars (h : (Decimal.exponentChars exponent?).head? = some c) :
    c = 'e' ∨ c = 'E' := by
  cases exponent? with
  | none => cases h
  | some x =>
      obtain rfl : (if x.upper then 'E' else 'e') = c := Option.some.inj h
      cases x.upper
      · exact .inl rfl
      · exact .inr rfl

/-- What follows the digits before a point begins with the point or with a marker. -/
theorem head?_fractionChars_append
    (h : (Decimal.fractionChars fraction? ++ Decimal.exponentChars exponent?).head? = some c) :
    c = '.' ∨ c = 'e' ∨ c = 'E' := by
  cases fraction? with
  | none => exact .inr (head?_exponentChars h)
  | some ds =>
      obtain rfl : '.' = c := Option.some.inj h
      exact .inl rfl

end Heads

namespace Numeral

/-! ### Reading what is written -/

section Writing

variable {rest : List Char}

/-- Signs are told apart from what follows them. -/
theorem takeSign_append (sign : Sign)
    (hrest : ∀ c, rest.head? = some c → c ≠ '-' ∧ c ≠ '+') :
    takeSign (sign.chars ++ rest) = (decide (sign = .minus), rest) := by
  cases sign with
  | plus | minus => rfl
  | none =>
      rw [Sign.chars, List.nil_append, takeSign]
      · rfl
      · rintro rest' rfl
        exact (hrest '-' rfl).1 rfl
      · rintro rest' rfl
        exact (hrest '+' rfl).2 rfl

/-- A digit is neither of the signs. -/
theorem ne_sign_of_isDigit {c : Char} (h : c.isDigit = true) : c ≠ '-' ∧ c ≠ '+' := by
  constructor <;> rintro rfl <;> exact absurd h (by decide)

/-- A point is told apart from what follows its digits. -/
theorem takeFraction_append (fraction? : Option Digits)
    (hrest : ∀ c, rest.head? = some c → c.isDigit = false ∧ c ≠ '.') :
    takeFraction (Decimal.fractionChars fraction? ++ rest) =
      ((fraction?.getD []).chars, rest) := by
  cases fraction? with
  | none =>
      rw [Decimal.fractionChars, List.nil_append, takeFraction]
      · rfl
      · rintro rest' rfl
        exact (hrest '.' rfl).2 rfl
  | some ds =>
      have hdigits := Digits.takeWhile_append ds fun c hc => (hrest c hc).1
      rw [Decimal.fractionChars, List.cons_append, takeFraction, hdigits.1, hdigits.2]
      rfl

/-- An exponent is read as the number that it is. -/
theorem readExponent_chars (x : Exponent) : readExponent x.chars = some x.value := by
  obtain ⟨upper, sign, ds, hne⟩ := x
  have hmarker : (if upper then 'E' else 'e') = 'e' ∨ (if upper then 'E' else 'e') = 'E' := by
    cases upper
    · exact .inl rfl
    · exact .inr rfl
  have hsign : takeSign (sign.chars ++ ds.chars) = (decide (sign = .minus), ds.chars) := by
    refine takeSign_append sign fun c hc => ne_sign_of_isDigit ?_
    exact Digits.isDigit_of_mem_chars (List.mem_of_mem_head? hc)
  have hdigits : ds.chars ≠ [] ∧ ds.chars.all Char.isDigit = true :=
    ⟨mt Digits.chars_eq_nil_iff.mp hne,
      List.all_eq_true.mpr fun c => Digits.isDigit_of_mem_chars⟩
  rw [Exponent.chars, readExponent, if_pos hmarker, hsign]
  show (if ds.chars ≠ [] ∧ ds.chars.all Char.isDigit = true then _ else _) = _
  rw [if_pos hdigits, Digits.natOfDigits_chars]
  cases sign <;> simp [Exponent.value, Sign.factor]

/-- **What is written** in decimal notation is read. -/
theorem read?_chars (d : Decimal) : read? d.chars = some d.numeral := by
  obtain ⟨sign, whole, fraction?, exponent?, hne⟩ := d
  have hexponent : readExponent (Decimal.exponentChars exponent?) =
      some ((exponent?.map Exponent.value).getD 0) := by
    cases exponent? with
    | none => rfl
    | some x => exact readExponent_chars x
  have hfraction : takeFraction
      (Decimal.fractionChars fraction? ++ Decimal.exponentChars exponent?) =
        ((fraction?.getD []).chars, Decimal.exponentChars exponent?) := by
    refine takeFraction_append fraction? fun c hc => ?_
    rcases head?_exponentChars hc with rfl | rfl <;> decide
  have hpoint : ∀ c, (Decimal.fractionChars fraction? ++ Decimal.exponentChars exponent?).head? =
      some c → c.isDigit = false := by
    intro c hc
    rcases head?_fractionChars_append hc with rfl | rfl | rfl <;> decide
  have hwhole := Digits.takeWhile_append whole hpoint
  have hsign : takeSign (Decimal.chars ⟨sign, whole, fraction?, exponent?, hne⟩) =
      (decide (sign = .minus), whole.chars ++
        (Decimal.fractionChars fraction? ++ Decimal.exponentChars exponent?)) := by
    refine takeSign_append sign fun c hc => ?_
    rcases Digits.head?_chars_append hc with hdigit | hpoint
    · exact ne_sign_of_isDigit hdigit
    · rcases head?_fractionChars_append hpoint with rfl | rfl | rfl <;> decide
  have hsome : ¬ (whole.chars = [] ∧ (fraction?.getD []).chars = []) := by
    rw [Digits.chars_eq_nil_iff, Digits.chars_eq_nil_iff, ← List.append_eq_nil_iff]
    exact hne
  unfold read?
  rw [hsign]
  simp only [hwhole.1, hwhole.2, hfraction, if_neg hsome, hexponent]
  rfl

end Writing

/-! ### Writing what is read -/

section Reading

variable {cs : List Char} {n : Numeral} {e : ℤ}

/-- What is taken off as a sign is one. -/
theorem exists_sign (cs : List Char) : ∃ sign : Sign,
    cs = sign.chars ++ (takeSign cs).2 ∧ (takeSign cs).1 = decide (sign = .minus) := by
  unfold takeSign
  split
  · exact ⟨.minus, rfl, rfl⟩
  · exact ⟨.plus, rfl, rfl⟩
  · exact ⟨.none, rfl, rfl⟩

/-- What is taken off as digits is digits. -/
theorem exists_digits (cs : List Char) : ∃ ds : Digits, cs.takeWhile Char.isDigit = ds.chars :=
  Digits.exists_chars_iff.mpr fun _ hc => List.mem_takeWhile_imp hc

/-- What is taken off as a fraction is one. -/
theorem exists_fraction (cs : List Char) : ∃ fraction? : Option Digits,
    cs = Decimal.fractionChars fraction? ++ (takeFraction cs).2 ∧
      (takeFraction cs).1 = (fraction?.getD []).chars := by
  unfold takeFraction
  split
  · rename_i rest
    obtain ⟨ds, hds⟩ := exists_digits rest
    refine ⟨some ds, ?_, hds⟩
    rw [Decimal.fractionChars, ← hds, List.cons_append, List.takeWhile_append_dropWhile]
  · exact ⟨none, rfl, rfl⟩

/-- What is read as an exponent is one. -/
theorem exists_exponent (h : readExponent cs = some e) : ∃ exponent? : Option Exponent,
    cs = Decimal.exponentChars exponent? ∧ e = (exponent?.map Exponent.value).getD 0 := by
  unfold readExponent at h
  split at h
  · exact ⟨none, rfl, (Option.some.inj h).symm⟩
  · rename_i marker rest
    split at h
    · rename_i hmarker
      obtain ⟨sign, hrest, hnegative⟩ := exists_sign rest
      generalize takeSign rest = taken at h hrest hnegative
      obtain ⟨negative, digits⟩ := taken
      obtain rfl : negative = decide (sign = .minus) := hnegative
      dsimp only at h
      split at h
      · rename_i hdigits
        obtain ⟨ds, rfl⟩ := Digits.exists_chars_iff.mpr (List.all_eq_true.mp hdigits.2)
        have hne : ds ≠ [] := mt Digits.chars_eq_nil_iff.mpr hdigits.1
        refine ⟨some ⟨marker = 'E', sign, ds, hne⟩, ?_, ?_⟩
        · rw [hrest, Decimal.exponentChars, Exponent.chars]
          rcases hmarker with rfl | rfl <;> rfl
        · rw [← Option.some.inj h, Digits.natOfDigits_chars]
          cases sign <;> simp [Exponent.value, Sign.factor]
      · cases h
    · cases h

/-- **What is read** is written in decimal notation. -/
theorem exists_decimal (h : read? cs = some n) : ∃ d : Decimal, cs = d.chars ∧ n = d.numeral := by
  obtain ⟨sign, hcs, hnegative⟩ := exists_sign cs
  obtain ⟨whole, hwhole⟩ := exists_digits (takeSign cs).2
  obtain ⟨fraction?, hpoint, hfraction⟩ :=
    exists_fraction ((takeSign cs).2.dropWhile Char.isDigit)
  unfold read? at h
  simp only [hwhole, hfraction, hnegative] at h
  split at h
  · cases h
  · rename_i hsome
    obtain ⟨e, he, rfl⟩ := Option.map_eq_some_iff.mp h
    obtain ⟨exponent?, hrest, rfl⟩ := exists_exponent he
    have hne : whole ++ fraction?.getD [] ≠ [] := by
      rw [Digits.chars_eq_nil_iff, Digits.chars_eq_nil_iff, ← List.append_eq_nil_iff] at hsome
      exact hsome
    refine ⟨⟨sign, whole, fraction?, exponent?, hne⟩, ?_, rfl⟩
    rw [Decimal.chars, ← hrest, ← hpoint, ← hwhole, List.takeWhile_append_dropWhile]
    exact hcs

end Reading

/-- **The reader** accepts exactly what is written in decimal notation. -/
theorem read?_eq_some_iff {cs : List Char} {n : Numeral} :
    read? cs = some n ↔ ∃ d : Decimal, cs = d.chars ∧ n = d.numeral := by
  constructor
  · exact exists_decimal
  · rintro ⟨d, rfl, rfl⟩
    exact read?_chars d

/-! ### Numbers -/

/-- The number that a numeral stands for. -/
def value (n : Numeral) : ℚ := (if n.negative then -1 else 1) * n.significand * 10 ^ n.scale

/-- Of what a numeral stands for only the sign is left out. -/
theorem abs_value (n : Numeral) : |n.value| = n.significand * 10 ^ n.scale := by
  have hsign : |(if n.negative then -1 else 1 : ℚ)| = 1 := by
    cases n.negative
    · exact abs_one
    · exact (abs_neg 1).trans abs_one
  have hpower : (0 : ℚ) < 10 ^ n.scale := zpow_pos (by norm_num) n.scale
  rw [value, abs_mul, abs_mul, hsign, one_mul, Nat.abs_cast, abs_of_pos hpower]

end Numeral

namespace Decimal

/-- The digits of a number before and behind the point together. -/
theorem significand_numeral (d : Decimal) :
    d.numeral.significand = d.whole.value * 10 ^ d.fraction.length + d.fraction.value := by
  show Numeral.natOfDigits (d.whole.chars ++ d.fraction.chars) = _
  rw [← Digits.chars_append, Digits.natOfDigits_chars, Digits.value_append]

/-- Every digit behind the point counts for one power of ten. -/
theorem scale_numeral (d : Decimal) : d.numeral.scale = d.exponent - d.fraction.length := by
  show d.exponent - (d.fraction.chars.length : ℤ) = _
  rw [Digits.length_chars]

/-- **What is kept** of a number by a reader is enough to tell the number. -/
theorem value_numeral (d : Decimal) : d.numeral.value = d.value := by
  have hsign : (if d.numeral.negative then -1 else 1 : ℚ) = d.sign.factor := by
    show (if decide (d.sign = .minus) then -1 else 1 : ℚ) = _
    cases d.sign <;> simp [Sign.factor]
  have hpower : (10 : ℚ) ^ d.fraction.length ≠ 0 := pow_ne_zero _ (by norm_num)
  rw [Numeral.value, value, hsign, significand_numeral, scale_numeral,
    zpow_sub₀ (by norm_num), zpow_natCast]
  push_cast
  field_simp

/-! ### Characters -/

/-- The characters besides digits. -/
def marks : List Char := ['+', '-', '.', 'e', 'E']

theorem mem_marks_of_mem_sign {c : Char} {sign : Sign} (h : c ∈ sign.chars) : c ∈ marks := by
  cases sign with
  | none => cases h
  | plus | minus =>
      obtain rfl := List.mem_singleton.mp h
      decide

theorem isDigit_or_mem_marks_of_mem_exponent {c : Char} {exponent? : Option Exponent}
    (h : c ∈ exponentChars exponent?) : c.isDigit = true ∨ c ∈ marks := by
  cases exponent? with
  | none => cases h
  | some x =>
      rcases List.mem_cons.mp h with rfl | h
      · cases x.upper <;> exact .inr (by decide)
      · rcases List.mem_append.mp h with hsign | hdigits
        · exact .inr (mem_marks_of_mem_sign hsign)
        · exact .inl (Digits.isDigit_of_mem_chars hdigits)

theorem isDigit_or_mem_marks_of_mem_fraction {c : Char} {fraction? : Option Digits}
    (h : c ∈ fractionChars fraction?) : c.isDigit = true ∨ c ∈ marks := by
  cases fraction? with
  | none => cases h
  | some ds =>
      rcases List.mem_cons.mp h with rfl | hdigits
      · exact .inr (by decide)
      · exact .inl (Digits.isDigit_of_mem_chars hdigits)

/-- **Nothing but digits and marks** is used. -/
theorem isDigit_or_mem_marks_of_mem_chars {c : Char} {d : Decimal} (h : c ∈ d.chars) :
    c.isDigit = true ∨ c ∈ marks := by
  simp only [chars, List.mem_append] at h
  rcases h with hsign | hwhole | hfraction | hexponent
  · exact .inr (mem_marks_of_mem_sign hsign)
  · exact .inl (Digits.isDigit_of_mem_chars hwhole)
  · exact isDigit_or_mem_marks_of_mem_fraction hfraction
  · exact isDigit_or_mem_marks_of_mem_exponent hexponent

end Decimal

end LinkExpr
