/-!
# Decimal numerals

A numeral is an optional sign, digits with at most one point and at least one digit, and optionally
an exponent. Its value is a rational number. A numeral is finite if its value, rounded to the
nearest double precision number, does not overflow; that is so exactly if its absolute value is
below `2 ^ 1024 - 2 ^ 970`, half a unit above the greatest such number.

## Main results

* `belowScaled_iff`: comparing a scaled number with a bound never has to compute a power that is
  longer than the numeral itself.
-/

namespace LinkExpr

/-- A decimal numeral: the digits before and after the point, and the power of ten they are
multiplied by. -/
structure Numeral where
  negative : Bool
  whole : List Char
  fraction : List Char
  exponent : Int
deriving DecidableEq, Repr

namespace Numeral

/-- The number that digits denote. -/
def natOfDigits (digits : List Char) : Nat :=
  digits.foldl (fun n c => 10 * n + (c.toNat - '0'.toNat)) 0

/-- Takes an optional sign off a text; the sign is whether it was a minus. -/
def takeSign : List Char → Bool × List Char
  | '-' :: rest => (true, rest)
  | '+' :: rest => (false, rest)
  | cs => (false, cs)

/-- Reads the exponent that a numeral ends with: nothing, or a marker and a number with an optional
sign. -/
def readExponent : List Char → Option Int
  | [] => some 0
  | marker :: rest =>
      if marker = 'e' ∨ marker = 'E' then
        let (negative, digits) := takeSign rest
        if digits ≠ [] ∧ digits.all Char.isDigit then
          some (if negative then -(natOfDigits digits : Int) else natOfDigits digits)
        else none
      else none

/-- Takes the fraction off a text, if a point comes first. -/
def takeFraction : List Char → List Char × List Char
  | '.' :: rest => (rest.takeWhile Char.isDigit, rest.dropWhile Char.isDigit)
  | cs => ([], cs)

/-- Reads a numeral; nothing else may be in the text. -/
def read? (cs : List Char) : Option Numeral :=
  let (negative, unsigned) := takeSign cs
  let whole := unsigned.takeWhile Char.isDigit
  let (fraction, rest) := takeFraction (unsigned.dropWhile Char.isDigit)
  if whole = [] ∧ fraction = [] then none
  else (readExponent rest).map fun exponent => ⟨negative, whole, fraction, exponent⟩

/-- The whole number that all digits of a numeral denote together. -/
def significand (n : Numeral) : Nat := natOfDigits (n.whole ++ n.fraction)

/-- The power of ten that the significand is multiplied by. -/
def scale (n : Numeral) : Int := n.exponent - n.fraction.length

/-- Every value below this bound rounds to a finite double precision number, and no other: it is
half a unit above the greatest such number. -/
def finiteBound : Nat := Nat.pow 2 1024 - Nat.pow 2 970

/-- A power of ten. -/
def powerOfTen (k : Nat) : Nat := Nat.pow 10 k

@[simp] theorem powerOfTen_zero : powerOfTen 0 = 1 := rfl

theorem powerOfTen_pos (k : Nat) : 0 < powerOfTen k := Nat.pow_pos (by decide)

/-- A number of `k` or fewer binary digits is below the power of ten. -/
theorem lt_powerOfTen_of_log2_lt {n k : Nat} (h : n.log2 < k) : n < powerOfTen k := by
  by_cases hn : n = 0
  · exact hn ▸ powerOfTen_pos k
  · exact Nat.lt_of_lt_of_le ((Nat.log2_lt hn).1 h) (Nat.pow_le_pow_left (by decide) k)

/-- Whether `m * 10 ^ e` is below a bound that is at least one. -/
def belowScaled (m : Nat) (e : Int) (bound : Nat) : Bool :=
  if m = 0 then true
  else if 0 ≤ e then
    -- a power as long as the bound is beyond it already
    e.toNat ≤ bound.log2 && m * powerOfTen e.toNat < bound
  else
    -- a power longer than the significand makes the value less than one
    m.log2 < e.natAbs || m < bound * powerOfTen e.natAbs

theorem belowScaled_iff {m bound : Nat} (hbound : 0 < bound) (e : Int) :
    belowScaled m e bound = true ↔
      m * powerOfTen e.toNat < bound * powerOfTen (-e).toNat := by
  unfold belowScaled
  by_cases hm : m = 0
  · simp [hm, hbound, powerOfTen_pos]
  by_cases he : 0 ≤ e
  · have hneg : (-e).toNat = 0 := by omega
    simp only [hm, he, if_true, if_false, hneg, powerOfTen_zero, Nat.mul_one, Bool.and_eq_true,
      decide_eq_true_eq, and_iff_right_iff_imp]
    intro hlt
    apply Nat.le_of_not_lt
    intro hlog
    have hpower := lt_powerOfTen_of_log2_lt hlog
    have hle : powerOfTen e.toNat ≤ m * powerOfTen e.toNat :=
      Nat.le_mul_of_pos_left _ (by omega)
    omega
  · have hpos : e.toNat = 0 := by omega
    have hneg : (-e).toNat = e.natAbs := by omega
    simp only [hm, he, if_false, hpos, hneg, powerOfTen_zero, Nat.mul_one, Bool.or_eq_true,
      decide_eq_true_eq, or_iff_right_iff_imp]
    intro hlog
    exact Nat.lt_of_lt_of_le (lt_powerOfTen_of_log2_lt hlog) (Nat.le_mul_of_pos_left _ hbound)

/-- A numeral whose value does not overflow. -/
def isFinite (n : Numeral) : Bool := belowScaled n.significand n.scale finiteBound

end Numeral

end LinkExpr
