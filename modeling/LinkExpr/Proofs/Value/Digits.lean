import LinkExpr.Numeral
import Mathlib.Data.List.Induction
import Mathlib.Data.Nat.Digits.Defs

/-!
# Decimal Digits

Decimal digits as numbers below ten, apart from the characters that they are written as. Texts that
consist of ASCII digits are exactly the texts that digits are written as, and what is read from such
a text is the number that the digits denote to the base of ten.

## Main results

* `Digits.value_append`: the number that digits denote, by their places.
* `Digits.exists_chars_iff`: which texts digits are written as.
* `Digits.natOfDigits_chars`: the number that is read from digits.
-/

namespace LinkExpr

/-- Decimal digits, the most significant one first. -/
abbrev Digits := List (Fin 10)

namespace Digits

/-- The character that a digit is written as. -/
def char (d : Fin 10) : Char := Char.ofNat ('0'.toNat + d)

/-- Digits as they are written. -/
def chars (ds : Digits) : List Char := ds.map char

/-- The text of digits. -/
def text (ds : Digits) : String := String.ofList ds.chars

/-- The number that digits denote. -/
def value (ds : Digits) : ℕ := Nat.ofDigits 10 (ds.reverse.map Fin.val)

variable {ds : Digits} {cs : List Char}

@[simp] theorem chars_nil : chars [] = [] := rfl

@[simp] theorem chars_append (ds es : Digits) : chars (ds ++ es) = chars ds ++ chars es :=
  List.map_append

theorem chars_zeros (k : ℕ) : chars (List.replicate k 0) = List.replicate k '0' :=
  List.map_replicate

@[simp] theorem chars_eq_nil_iff : ds.chars = [] ↔ ds = [] := List.map_eq_nil_iff

@[simp] theorem length_chars (ds : Digits) : ds.chars.length = ds.length := List.length_map ..

@[simp] theorem toList_text (ds : Digits) : ds.text.toList = ds.chars := String.toList_ofList

@[simp] theorem value_nil : value [] = 0 := rfl

/-- Digits that others follow are moved up by as many places. -/
theorem value_append (ds es : Digits) :
    value (ds ++ es) = value ds * 10 ^ es.length + value es := by
  rw [value, value, value, List.reverse_append, List.map_append, Nat.ofDigits_append,
    List.length_map, List.length_reverse, Nat.mul_comm, Nat.add_comm]

/-- One more digit moves the others up by one place. -/
theorem value_append_singleton (ds : Digits) (d : Fin 10) :
    value (ds ++ [d]) = 10 * value ds + d := by
  have hlast : value [d] = d := Nat.ofDigits_singleton
  rw [value_append, hlast, List.length_singleton, Nat.pow_one, Nat.mul_comm]

/-- Zeros in front do not count. -/
theorem value_zeros_append (k : ℕ) (ds : Digits) :
    value (List.replicate k 0 ++ ds) = value ds := by
  have hzeros : value (List.replicate k 0) = 0 := by
    rw [value, List.reverse_replicate, List.map_replicate]
    exact Nat.ofDigits_replicate_zero
  rw [value_append, hzeros, Nat.zero_mul, Nat.zero_add]

theorem isDigit_char (d : Fin 10) : (char d).isDigit = true := by
  decide +revert

theorem toNat_char_sub (d : Fin 10) : (char d).toNat - '0'.toNat = d := by
  decide +revert

theorem isDigit_of_mem_chars {c : Char} (h : c ∈ ds.chars) : c.isDigit = true := by
  obtain ⟨d, -, rfl⟩ := List.mem_map.mp h
  exact isDigit_char d

/-- Digits are taken off up to the first character that is not one. -/
theorem takeWhile_append (ds : Digits) {rest : List Char}
    (h : ∀ c, rest.head? = some c → c.isDigit = false) :
    (ds.chars ++ rest).takeWhile Char.isDigit = ds.chars ∧
      (ds.chars ++ rest).dropWhile Char.isDigit = rest := by
  have hdigits : ∀ c ∈ ds.chars, c.isDigit = true := fun c => isDigit_of_mem_chars
  have hrest : rest.takeWhile Char.isDigit = [] ∧ rest.dropWhile Char.isDigit = rest := by
    cases rest with
    | nil => exact ⟨rfl, rfl⟩
    | cons c rest =>
        have hc : ¬ c.isDigit = true := Bool.not_eq_true _ ▸ h c rfl
        exact ⟨List.takeWhile_cons_of_neg hc, List.dropWhile_cons_of_neg hc⟩
  rw [List.takeWhile_append_of_pos hdigits, List.dropWhile_append_of_pos hdigits, hrest.1,
    hrest.2, List.append_nil]
  exact ⟨rfl, rfl⟩

/-- A text that digits begin begins with a digit, or there are none. -/
theorem head?_chars_append {ds : Digits} {rest : List Char} {c : Char}
    (h : (ds.chars ++ rest).head? = some c) : c.isDigit = true ∨ rest.head? = some c := by
  cases ds with
  | nil => exact .inr h
  | cons d ds =>
      obtain rfl : char d = c := Option.some.inj h
      exact .inl (isDigit_char d)

/-- Every ASCII digit is what a digit is written as. -/
theorem exists_char {c : Char} (h : c.isDigit = true) : ∃ d, char d = c := by
  rw [Char.isDigit, Bool.and_eq_true, decide_eq_true_eq, decide_eq_true_eq] at h
  have hlower : '0'.toNat ≤ c.toNat := h.1
  have hupper : c.toNat ≤ '9'.toNat := h.2
  have hzero : '0'.toNat = 48 := rfl
  have hnine : '9'.toNat = 57 := rfl
  refine ⟨⟨c.toNat - '0'.toNat, by omega⟩, ?_⟩
  rw [char, Nat.add_sub_cancel' hlower, Char.ofNat_toNat]

/-- **Texts of ASCII digits** are the texts that digits are written as. -/
theorem exists_chars_iff : (∃ ds : Digits, cs = ds.chars) ↔ ∀ c ∈ cs, c.isDigit = true := by
  constructor
  · rintro ⟨ds, rfl⟩ c hc
    exact isDigit_of_mem_chars hc
  · intro h
    induction cs with
    | nil => exact ⟨[], rfl⟩
    | cons c cs ih =>
        obtain ⟨d, rfl⟩ := exists_char (h c List.mem_cons_self)
        obtain ⟨ds, rfl⟩ := ih fun c hc => h c (List.mem_cons_of_mem _ hc)
        exact ⟨d :: ds, rfl⟩

/-- **What is read from digits** is the number that they denote. -/
theorem natOfDigits_chars (ds : Digits) : Numeral.natOfDigits ds.chars = ds.value := by
  induction ds using List.reverseRecOn with
  | nil => rfl
  | append_singleton ds d ih =>
      rw [chars_append, Numeral.natOfDigits, List.foldl_append, value_append_singleton, ← ih]
      show 10 * _ + ((char d).toNat - '0'.toNat) = _
      rw [toNat_char_sub]
      rfl

end Digits

end LinkExpr
