/-!
# Byte offsets into text

Text is measured in UTF-8 bytes, while it is taken apart character by character. This module holds
the two ways to cut text at a byte offset: `splitAtOffset?` refuses an offset that is past the end
or inside a character, and `splitBelow` moves such an offset down to the nearest boundary.

## Main results

* `splitAtOffset?_eq_some_iff`: an accepted offset is exactly the size of the text before the cut.
* `splitBelow_append`, `byteSize_splitBelow_le`: the lower cut loses nothing and never passes the
  offset.
-/

namespace LinkExpr.Text

/-- The number of UTF-8 bytes of a text. -/
def byteSize : List Char → Nat
  | [] => 0
  | c :: cs => c.utf8Size + byteSize cs

@[simp] theorem byteSize_nil : byteSize [] = 0 := rfl

@[simp] theorem byteSize_cons (c : Char) (cs : List Char) :
    byteSize (c :: cs) = c.utf8Size + byteSize cs := rfl

@[simp] theorem byteSize_append (cs ds : List Char) :
    byteSize (cs ++ ds) = byteSize cs + byteSize ds := by
  induction cs with
  | nil => simp
  | cons c cs ih => simp [ih, Nat.add_assoc]

theorem byteSize_eq_zero_iff {cs : List Char} : byteSize cs = 0 ↔ cs = [] := by
  cases cs with
  | nil => simp
  | cons c cs =>
      have := c.utf8Size_pos
      simp
      omega

/-- Cuts a text at a byte offset; `none` if the offset is past the end or inside a character. -/
def splitAtOffset? : List Char → Nat → Option (List Char × List Char)
  | cs, 0 => some ([], cs)
  | [], _ + 1 => none
  | c :: cs, n + 1 =>
      if c.utf8Size ≤ n + 1 then
        (splitAtOffset? cs (n + 1 - c.utf8Size)).map fun (before, after) => (c :: before, after)
      else none

/-- The text between two byte offsets; `none` unless both are boundaries in the right order. -/
def slice? (cs : List Char) (start stop : Nat) : Option (List Char) := do
  let (_, rest) ← splitAtOffset? cs start
  if start ≤ stop then
    let (between, _) ← splitAtOffset? rest (stop - start)
    return between
  else none

theorem splitAtOffset?_byteSize (before after : List Char) :
    splitAtOffset? (before ++ after) (byteSize before) = some (before, after) := by
  induction before with
  | nil => cases after <;> simp [splitAtOffset?]
  | cons c cs ih =>
      have hc := c.utf8Size_pos
      obtain ⟨n, hn⟩ : ∃ n, c.utf8Size + byteSize cs = n + 1 :=
        ⟨c.utf8Size + byteSize cs - 1, by omega⟩
      have hle : c.utf8Size ≤ n + 1 := by omega
      have hsub : n + 1 - c.utf8Size = byteSize cs := by omega
      simp [splitAtOffset?, hn, hle, hsub, ih]

theorem splitAtOffset?_eq_some_iff {cs before after : List Char} {n : Nat} :
    splitAtOffset? cs n = some (before, after) ↔ cs = before ++ after ∧ byteSize before = n := by
  constructor
  · intro h
    induction cs, n using splitAtOffset?.induct generalizing before after with
    | case1 cs => simp [splitAtOffset?] at h; simp [h]
    | case2 n => simp [splitAtOffset?] at h
    | case3 c cs n hle ih =>
        simp only [splitAtOffset?, hle, if_true, Option.map_eq_some_iff] at h
        obtain ⟨⟨b, a⟩, hsplit, heq⟩ := h
        obtain ⟨rfl, rfl⟩ := Prod.mk.inj heq
        obtain ⟨hcs, hsize⟩ := ih hsplit
        exact ⟨by simp [hcs], by simp only [byteSize_cons]; omega⟩
    | case4 c cs n hle => simp [splitAtOffset?, hle] at h
  · rintro ⟨rfl, rfl⟩
    exact splitAtOffset?_byteSize before after

/-- The text between the offsets where a part begins and ends is that part. -/
theorem slice?_append (before part after : List Char) :
    slice? (before ++ part ++ after) (byteSize before) (byteSize before + byteSize part)
      = some part := by
  simp [slice?, splitAtOffset?_byteSize]

/-- The text between two offsets is the part that begins at the one and ends at the other. -/
theorem slice?_eq_some_iff {cs part : List Char} {start stop : Nat} :
    slice? cs start stop = some part ↔ ∃ before after, cs = before ++ part ++ after ∧
      byteSize before = start ∧ byteSize before + byteSize part = stop := by
  constructor
  · intro h
    simp only [slice?, Option.bind_eq_bind, Option.bind_eq_some_iff, Prod.exists] at h
    obtain ⟨before, rest, hstart, h⟩ := h
    obtain ⟨rfl, rfl⟩ := splitAtOffset?_eq_some_iff.1 hstart
    split at h
    · rename_i hle
      simp only [Option.bind_eq_some_iff, Prod.exists, Option.pure_def, Option.some.injEq] at h
      obtain ⟨between, after, hstop, rfl⟩ := h
      obtain ⟨rfl, hsize⟩ := splitAtOffset?_eq_some_iff.1 hstop
      exact ⟨before, after, by simp, rfl, by omega⟩
    · cases h
  · rintro ⟨before, after, rfl, rfl, rfl⟩
    exact slice?_append before part after

/-- Cuts a text at the greatest boundary that is not above a byte offset. -/
def splitBelow : List Char → Nat → List Char × List Char
  | [], _ => ([], [])
  | c :: cs, n =>
      if c.utf8Size ≤ n then
        let (before, after) := splitBelow cs (n - c.utf8Size)
        (c :: before, after)
      else ([], c :: cs)

@[simp] theorem splitBelow_append (cs : List Char) (n : Nat) :
    (splitBelow cs n).1 ++ (splitBelow cs n).2 = cs := by
  induction cs generalizing n with
  | nil => simp [splitBelow]
  | cons c cs ih => by_cases h : c.utf8Size ≤ n <;> simp [splitBelow, h, ih]

theorem byteSize_splitBelow_le (cs : List Char) (n : Nat) :
    byteSize (splitBelow cs n).1 ≤ n := by
  induction cs generalizing n with
  | nil => simp [splitBelow]
  | cons c cs ih =>
      by_cases h : c.utf8Size ≤ n
      · have := ih (n - c.utf8Size)
        simp [splitBelow, h]
        omega
      · simp [splitBelow, h]

/-- The character after the lower cut, if there is one, would pass the offset. -/
theorem lt_byteSize_of_splitBelow {cs rest : List Char} {n : Nat} {c : Char}
    (h : (splitBelow cs n).2 = c :: rest) : n < byteSize (splitBelow cs n).1 + c.utf8Size := by
  induction cs generalizing n with
  | nil => simp [splitBelow] at h
  | cons d cs ih =>
      by_cases hle : d.utf8Size ≤ n
      · simp only [splitBelow, hle, if_true] at h ⊢
        have := ih h
        simp only [byteSize_cons]
        omega
      · simp only [splitBelow, hle, if_false] at h ⊢
        obtain ⟨rfl, rfl⟩ := List.cons.inj h
        simp
        omega

/-- Cutting at the size of a part finds the end of that part. -/
theorem splitBelow_byteSize (before after : List Char) :
    splitBelow (before ++ after) (byteSize before) = (before, after) := by
  induction before with
  | nil =>
      cases after with
      | nil => rfl
      | cons c cs => simp [splitBelow, Nat.ne_of_gt c.utf8Size_pos]
  | cons c cs ih =>
      simp [splitBelow, ih]

end LinkExpr.Text
