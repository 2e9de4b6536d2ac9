import LinkExpr.Proofs.Value.Digits
import LinkExpr.Value.ValueType
import Mathlib.Data.UInt

/-!
# Port Numbers

A port is given in decimal and has to fit into 16 bits. A reader of such numbers keeps what it has
read in 16 bits, too: with every digit the number is multiplied and the digit added, and either of
the two fails, instead of wrapping around, if its result does not fit. A digit more never makes a
number smaller, so that a number that once did not fit cannot fit later, and the reader fails
exactly if the whole number does not fit. Zeros in front do not move anything, however many there
are.

The reader is more generous than a port has to be in one respect: it passes over a plus sign in
front. A port must consist of digits alone.

## Main results

* `Word.push?_eq_some_iff`, `Word.foldlM_push?_eq_some_iff`: one digit, and all digits.
* `isPortNumber_iff`: which texts are port numbers.
* `isPortNumber_iff_read?`: they are the texts of digits that the reader accepts.
* `ports_are_decimal_numerals`: what is accepted for both types of ports.
-/

namespace LinkExpr

/-! ### Numbers of 16 bits -/

namespace Word

/-- A product, if it fits. -/
def mul? (a b : UInt16) : Option UInt16 :=
  if a.toNat * b.toNat < UInt16.size then some (a * b) else none

/-- A sum, if it fits. -/
def add? (a b : UInt16) : Option UInt16 :=
  if a.toNat + b.toNat < UInt16.size then some (a + b) else none

/-- The number that a character denotes as a digit. -/
def digit? (c : Char) : Option UInt16 :=
  if c.isDigit then some (UInt16.ofNat (c.toNat - '0'.toNat)) else none

/-- Puts a digit behind a number. -/
def push? (n : UInt16) (c : Char) : Option UInt16 := do
  let shifted ← mul? n 10
  add? shifted (← digit? c)

/-- Reads a number: digits, at least one, and possibly a plus sign in front. -/
def read? : List Char → Option UInt16
  | [] => none
  | '+' :: rest => if rest = [] then none else rest.foldlM push? 0
  | cs => cs.foldlM push? 0

variable {a b n m : UInt16} {ds : Digits}

/-- A result that is given only if it fits is the whole result. -/
theorem checked_eq_some_iff {k : ℕ} {x : UInt16} (hx : x.toNat = k % UInt16.size) :
    (if k < UInt16.size then some x else none) = some n ↔ n.toNat = k := by
  constructor
  · intro h
    split at h
    · rename_i hfits
      obtain rfl := Option.some.inj h
      rw [hx, Nat.mod_eq_of_lt hfits]
    · cases h
  · intro h
    have hfits : k < UInt16.size := h ▸ n.toNat_lt
    rw [if_pos hfits, Option.some.injEq, ← UInt16.toNat_inj, hx, Nat.mod_eq_of_lt hfits, h]

theorem mul?_eq_some_iff : mul? a b = some n ↔ n.toNat = a.toNat * b.toNat :=
  checked_eq_some_iff (UInt16.toNat_mul a b)

theorem add?_eq_some_iff : add? a b = some n ↔ n.toNat = a.toNat + b.toNat :=
  checked_eq_some_iff (UInt16.toNat_add a b)

theorem digit?_char (d : Fin 10) : digit? (Digits.char d) = some (UInt16.ofNat d) := by
  rw [digit?, if_pos (Digits.isDigit_char d), Digits.toNat_char_sub]

theorem toNat_ofNat_digit (d : Fin 10) : (UInt16.ofNat d).toNat = d := by
  decide +revert

/-- **One digit** is put behind a number exactly if the new number fits. -/
theorem push?_eq_some_iff {d : Fin 10} :
    push? n (Digits.char d) = some m ↔ m.toNat = 10 * n.toNat + d := by
  have hten : (10 : UInt16).toNat = 10 := rfl
  rw [push?, digit?_char]
  constructor
  · intro h
    obtain ⟨shifted, hshifted, hsum⟩ := Option.bind_eq_some_iff.mp h
    have hmul : shifted.toNat = n.toNat * 10 := mul?_eq_some_iff.mp hshifted
    have hadd : m.toNat = shifted.toNat + (UInt16.ofNat d).toNat := add?_eq_some_iff.mp hsum
    rw [hadd, hmul, toNat_ofNat_digit, Nat.mul_comm]
  · intro h
    -- the product fits because the sum does
    have hfits : n.toNat * 10 < UInt16.size := by
      have hm : m.toNat < UInt16.size := m.toNat_lt
      omega
    have hmul : (n * 10).toNat = n.toNat * 10 := by
      rw [UInt16.toNat_mul, hten, Nat.mod_eq_of_lt hfits]
    refine Option.bind_eq_some_iff.mpr ⟨n * 10, mul?_eq_some_iff.mpr hmul, ?_⟩
    refine add?_eq_some_iff.mpr ?_
    rw [h, hmul, toNat_ofNat_digit, Nat.mul_comm]

/-- **All digits** are read exactly if the number that they denote fits. -/
theorem foldlM_push?_eq_some_iff :
    ds.chars.foldlM push? 0 = some n ↔ n.toNat = ds.value := by
  induction ds using List.reverseRecOn generalizing n with
  | nil =>
      have hzero : (0 : UInt16).toNat = Digits.value [] := rfl
      rw [← hzero, UInt16.toNat_inj]
      exact Option.some_inj.trans eq_comm
  | append_singleton ds d ih =>
      have hlast : Digits.chars [d] = [Digits.char d] := rfl
      rw [Digits.chars_append, hlast, List.foldlM_append, Digits.value_append_singleton]
      constructor
      · intro h
        obtain ⟨front, hfront, hpush⟩ := Option.bind_eq_some_iff.mp h
        simp only [List.foldlM_cons, List.foldlM_nil, bind_pure] at hpush
        rw [push?_eq_some_iff.mp hpush, ih.mp hfront]
      · intro h
        -- what stands in front of the last digit fits, since everything does
        have hfits : Digits.value ds < UInt16.size := by
          have hn : n.toNat < UInt16.size := n.toNat_lt
          omega
        have hfront : (UInt16.ofNat (Digits.value ds)).toNat = Digits.value ds :=
          UInt16.toNat_ofNat_of_lt hfits
        refine Option.bind_eq_some_iff.mpr ⟨_, ih.mpr hfront, ?_⟩
        simp only [List.foldlM_cons, List.foldlM_nil, bind_pure]
        rw [push?_eq_some_iff, hfront, h]

/-- Digits have no sign in front of them. -/
theorem read?_chars (hne : ds ≠ []) : read? ds.chars = ds.chars.foldlM push? 0 := by
  cases ds with
  | nil => exact absurd rfl hne
  | cons d ds =>
      rw [Digits.chars, List.map_cons, read?]
      · exact List.cons_ne_nil _ _
      · intro rest hrest
        have hdigit : ('+').isDigit = true := (List.cons.inj hrest).1 ▸ Digits.isDigit_char d
        exact absurd hdigit (by decide)

/-- The reader accepts digits exactly if the number that they denote fits. -/
theorem isSome_read?_chars_iff :
    (read? ds.chars).isSome = true ↔ ds ≠ [] ∧ ds.value ≤ 65535 := by
  by_cases hne : ds = []
  · subst hne
    exact iff_of_false Bool.false_ne_true fun h => h.1 rfl
  · rw [read?_chars hne, Option.isSome_iff_exists, and_iff_right hne]
    have hsize : UInt16.size = 65535 + 1 := rfl
    constructor
    · rintro ⟨n, hn⟩
      have hlt : n.toNat < UInt16.size := n.toNat_lt
      rw [foldlM_push?_eq_some_iff.mp hn] at hlt
      omega
    · intro hle
      have hlt : ds.value < UInt16.size := by omega
      exact ⟨UInt16.ofNat ds.value,
        foldlM_push?_eq_some_iff.mpr (UInt16.toNat_ofNat_of_lt hlt)⟩

end Word

/-! ### Ports -/

section Ports

variable {type : ValueType} {s : String} {ds : Digits}

/-- Digits are a port number if there are any and the number that they denote is in range. -/
theorem isPortNumber_of_digits (h : s.toList = ds.chars) :
    isPortNumber s = true ↔ ds ≠ [] ∧ ds.value ≤ 65535 := by
  rw [isPortNumber, h, Digits.natOfDigits_chars, Bool.and_eq_true, Bool.and_eq_true,
    Bool.not_eq_true', List.isEmpty_eq_false_iff, List.all_eq_true, decide_eq_true_eq,
    ne_eq, Digits.chars_eq_nil_iff, and_iff_left fun c => Digits.isDigit_of_mem_chars]

/-- A port number consists of digits. -/
theorem exists_digits_of_isPortNumber (h : isPortNumber s = true) :
    ∃ ds : Digits, s.toList = ds.chars := by
  rw [isPortNumber, Bool.and_eq_true, Bool.and_eq_true, List.all_eq_true] at h
  exact Digits.exists_chars_iff.mpr h.1.2

/-- **Port numbers** are the digits of a number that a port can have. -/
theorem isPortNumber_iff : isPortNumber s = true ↔
    ∃ ds : Digits, s = ds.text ∧ ds ≠ [] ∧ ds.value ≤ 65535 := by
  constructor
  · intro h
    obtain ⟨ds, hds⟩ := exists_digits_of_isPortNumber h
    refine ⟨ds, ?_, (isPortNumber_of_digits hds).mp h⟩
    rw [Digits.text, ← hds, String.ofList_toList]
  · rintro ⟨ds, rfl, hport⟩
    exact (isPortNumber_of_digits (Digits.toList_text ds)).mpr hport

/-- Port numbers are the texts of digits that are read as numbers of 16 bits. -/
theorem isPortNumber_iff_read? : isPortNumber s = true ↔
    (∀ c ∈ s.toList, c.isDigit = true) ∧ (Word.read? s.toList).isSome = true := by
  rw [← Digits.exists_chars_iff]
  constructor
  · intro h
    obtain ⟨ds, hds⟩ := exists_digits_of_isPortNumber h
    rw [isPortNumber_of_digits hds, ← Word.isSome_read?_chars_iff, ← hds] at h
    exact ⟨⟨ds, hds⟩, h⟩
  · rintro ⟨⟨ds, hds⟩, hread⟩
    rwa [hds, Word.isSome_read?_chars_iff, ← isPortNumber_of_digits hds] at hread

/-- Zeros in front of a text that is not empty do not count. -/
theorem isPortNumber_zeros_append (k : ℕ) (hne : s ≠ "") :
    isPortNumber (String.ofList (List.replicate k '0') ++ s) = true ↔ isPortNumber s = true := by
  have hlist : (String.ofList (List.replicate k '0') ++ s).toList =
      List.replicate k '0' ++ s.toList := by
    rw [String.toList_append, String.toList_ofList]
  have hdigits : ∀ {ds : Digits}, s.toList = ds.chars →
      (isPortNumber (String.ofList (List.replicate k '0') ++ s) = true ↔
        isPortNumber s = true) := by
    intro ds hds
    have hzeros : (String.ofList (List.replicate k '0') ++ s).toList =
        Digits.chars (List.replicate k 0 ++ ds) := by
      rw [hlist, hds, Digits.chars_append, Digits.chars_zeros]
    have hsome : ds ≠ [] := by
      rintro rfl
      exact hne (String.toList_eq_nil_iff.mp hds)
    rw [isPortNumber_of_digits hzeros, isPortNumber_of_digits hds, Digits.value_zeros_append,
      and_iff_right hsome, and_iff_right (List.append_ne_nil_of_right_ne_nil _ hsome)]
  -- in both directions the text itself consists of digits
  constructor
  · intro h
    obtain ⟨es, hes⟩ := exists_digits_of_isPortNumber h
    obtain ⟨ds, hds⟩ := Digits.exists_chars_iff.mpr fun c (hc : c ∈ s.toList) =>
      Digits.isDigit_of_mem_chars (hes ▸ hlist ▸ List.mem_append_right _ hc)
    exact (hdigits hds).mp h
  · intro h
    obtain ⟨ds, hds⟩ := exists_digits_of_isPortNumber h
    exact (hdigits hds).mpr h

/-- Ports of both types are checked alike. -/
theorem validate_of_isPort (hport : type.isPort = true) (s : String) :
    type.validate s = if isPortNumber s then .ok () else .error (.notPort s) := by
  cases type with
  | clientPort | serverPort => rfl
  | string | numeric | boolean | password | url => cases hport

/-- A text is accepted for a port exactly if it is a port number. -/
theorem validate_port_eq_ok_iff (hport : type.isPort = true) :
    type.validate s = .ok () ↔ isPortNumber s = true := by
  rw [validate_of_isPort hport]
  cases isPortNumber s <;> simp

end Ports

/-- **Ports are decimal numerals up to 65535.** For both types of ports a text is accepted exactly
if it consists of ASCII digits, has at least one, and denotes a number of at most 65535; any other
text is rejected as it is given. The texts that are accepted are those of digits that a reader
accepts which computes in 16 bits and fails when a product or a sum does not fit. Zeros in front of
a text that is not empty, however many, do not matter. -/
theorem ports_are_decimal_numerals (type : ValueType) (hport : type.isPort = true) (s : String) :
    (type.validate s = .ok () ↔
      ∃ ds : Digits, s = ds.text ∧ ds ≠ [] ∧ ds.value ≤ 65535) ∧
    (type.validate s = .ok () ∨ type.validate s = .error (.notPort s)) ∧
    (type.validate s = .ok () ↔
      (∀ c ∈ s.toList, c.isDigit = true) ∧ (Word.read? s.toList).isSome = true) ∧
    (s ≠ "" → ∀ k, type.validate (String.ofList (List.replicate k '0') ++ s) = .ok () ↔
      type.validate s = .ok ()) := by
  simp only [validate_port_eq_ok_iff hport]
  refine ⟨isPortNumber_iff, ?_, isPortNumber_iff_read?, fun hne k =>
    isPortNumber_zeros_append k hne⟩
  rw [validate_of_isPort hport]
  cases isPortNumber s with
  | true => exact .inl rfl
  | false => exact .inr rfl

/-- The greatest port is accepted with more zeros in front than 16 bits have places; one more than
the greatest is not. -/
theorem greatest_port_is_accepted :
    ValueType.serverPort.validate "000000000000000000065535" = .ok () ∧
      ValueType.serverPort.validate "65536" ≠ .ok () := by
  obtain ⟨haccepted, -⟩ := ports_are_decimal_numerals .serverPort rfl "000000000000000000065535"
  obtain ⟨-, -, hread, -⟩ := ports_are_decimal_numerals .serverPort rfl "65536"
  have hoverflow : (Word.read? "65536".toList).isSome = false := by decide
  refine ⟨haccepted.mpr ⟨List.replicate 19 0 ++ [6, 5, 5, 3, 5], by decide, by decide, ?_⟩, ?_⟩
  · decide
  · intro hok
    rw [(hread.mp hok).2] at hoverflow
    cases hoverflow

end LinkExpr
