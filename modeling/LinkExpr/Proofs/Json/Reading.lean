import LinkExpr.Json.Reader
import LinkExpr.Json.Writer
import Mathlib.Data.List.DropRight

/-!
# Written Values Are Read

The reader takes a value off the front of a text, and what stands behind it is read later. So every
lemma here is about a written part with an arbitrary rest behind it. A rest matters in one place
only: a number would go on if a digit, a point or an exponent followed, and `EndsNumber` says that
none does. What follows a part of a written value is a comma, a closing bracket or a blank.

The reader is given a number of steps. `Reads`, `ReadsItems` and `ReadsMembers` ask for two steps
for each character of the part, so that the parts of a value can be put together without counting.

## Main results

* `readText_quote`: a text between quotes, escaped or not.
* `readNumber_toDigits`: a whole number up to what ends it.
* `ReadsItems.cons`, `ReadsMembers.cons`: an item or member before others; with `readsItems_last`
  and `readsMembers_last` they follow the layout of arrays and objects.
* `ReadsItems.reads`, `ReadsMembers.reads`: from the parts to the value.
* `Reads.parse?`: a text that is read as a value is a document.
-/

namespace LinkExpr.Json

/-! ### Text -/

section Text

variable {c : Char} {rest rest' : List Char} {parts : List Part}

theorem hexValue?_hexDigit {n : ℕ} (h : n < 16) : hexValue? (Text.hexDigit n) = some n := by
  decide +revert

/-- A control character is read from its code. -/
theorem readParts_code (hc : c.toNat < 0x20) (h : readParts rest = some (parts, rest')) :
    readParts ('\\' :: 'u' :: '0' :: '0' :: Text.hexDigit (c.toNat / 16) ::
      Text.hexDigit (c.toNat % 16) :: rest) = some (.char c :: parts, rest') := by
  have hcode : c.toNat / 16 * 16 + c.toNat % 16 = c.toNat := Nat.div_add_mod' ..
  have hpart : partOfCode c.toNat = .char c := by
    rw [partOfCode, if_neg (by omega), Char.ofNat_toNat]
  have hzero : hexValue? '0' = some 0 := by decide
  rw [readParts, hexValue?_hexDigit (by omega), hexValue?_hexDigit (by omega), hzero, h]
  simp [hcode, hpart]

/-- A character is read as it was written. -/
theorem readParts_escapeChar (h : readParts rest = some (parts, rest')) :
    readParts (escapeChar c ++ rest) = some (.char c :: parts, rest') := by
  unfold escapeChar
  split
  case h_8 hquote hslash _ _ _ _ _ =>
    split
    · rename_i hcontrol
      exact readParts_code hcontrol h
    · rename_i hcontrol
      rw [List.singleton_append, readParts]
      · simp [hcontrol, h]
      · exact hquote
      · rintro a b c d rest hslash'
        exact absurd hslash' hslash
      · rintro letter rest hslash'
        exact absurd hslash' hslash
  all_goals simp [readParts, simpleEscape?, h]

/-- Characters are read as they were written, up to the closing quote. -/
theorem readParts_flatMap_escapeChar (cs rest : List Char) :
    readParts (cs.flatMap escapeChar ++ '"' :: rest) = some (cs.map .char, rest) := by
  induction cs with
  | nil => rfl
  | cons c cs ih =>
      rw [List.flatMap_cons, List.append_assoc, List.map_cons]
      exact readParts_escapeChar ih

theorem joinParts_map_char (cs : List Char) : joinParts (cs.map .char) = some cs := by
  induction cs with
  | nil => rfl
  | cons c cs ih => rw [List.map_cons, joinParts, ih, Option.map_some]

/-- **A text** is read as it was written. -/
theorem readText_quote (text : String) (rest : List Char) :
    readText (text.toList.flatMap escapeChar ++ '"' :: rest) = some (some text, rest) := by
  rw [readText, readParts_flatMap_escapeChar, Option.map_some]
  simp only [joinParts_map_char, Option.map_some, String.ofList_toList]

end Text

/-! ### Numbers -/

section Numbers

variable {rest : List Char}

/-- A whole number ends where no character follows that would belong to it. -/
def EndsNumber (rest : List Char) : Prop :=
  ∀ c ∈ rest.head?, c.isDigit = false ∧ c ≠ '.' ∧ c ≠ 'e' ∧ c ≠ 'E'

theorem endsNumber_nil : EndsNumber [] := fun c hc => absurd hc (Option.not_mem_none c)

theorem endsNumber_cons {c : Char} (h : c ∈ [',', ']', '\x7d', '\n', ' ']) :
    EndsNumber (c :: rest) := by
  intro c' hc'
  obtain rfl : c = c' := Option.some.inj hc'
  clear hc'
  simp only [List.mem_cons, List.not_mem_nil, or_false] at h
  rcases h with rfl | rfl | rfl | rfl | rfl <;> decide

/-- Digits are taken off up to what ends the number. -/
theorem takeDigits?_append {digits : List Char} (hne : digits ≠ [])
    (hdigits : ∀ c ∈ digits, c.isDigit = true) (h : EndsNumber rest) :
    takeDigits? (digits ++ rest) = some (digits, rest) := by
  have htake : rest.takeWhile Char.isDigit = [] ∧ rest.dropWhile Char.isDigit = rest := by
    cases rest with
    | nil => exact ⟨rfl, rfl⟩
    | cons c rest =>
        have hc : ¬ c.isDigit = true := Bool.not_eq_true _ ▸ (h c rfl).1
        exact ⟨List.takeWhile_cons_of_neg hc, List.dropWhile_cons_of_neg hc⟩
  rw [takeDigits?, List.takeWhile_append_of_pos hdigits, List.dropWhile_append_of_pos hdigits,
    htake.1, htake.2, List.append_nil]
  cases digits with
  | nil => exact absurd rfl hne
  | cons => rfl

theorem takeFraction?_of_endsNumber (h : EndsNumber rest) :
    takeFraction? rest = some ([], rest) := by
  cases rest with
  | nil => rfl
  | cons c rest =>
      obtain ⟨-, hpoint, -, -⟩ := h c rfl
      rw [takeFraction?]
      rintro rest' ⟨rfl, -⟩
      exact hpoint rfl

theorem takeExponent?_of_endsNumber (h : EndsNumber rest) :
    takeExponent? rest = some ([], rest) := by
  cases rest with
  | nil => rfl
  | cons c rest =>
      obtain ⟨-, -, hlower, hupper⟩ := h c rfl
      unfold takeExponent?
      exact if_neg (not_or.mpr ⟨hlower, hupper⟩)

theorem natOfDigits_toDigits (n : ℕ) : Numeral.natOfDigits (Nat.toDigits 10 n) = n :=
  Nat.ofDigitChars_ten_toDigits

theorem isDigit_of_mem_toDigits {n : ℕ} {c : Char} (h : c ∈ Nat.toDigits 10 n) :
    c.isDigit = true :=
  Nat.isDigit_of_mem_toDigits (by decide) (by decide) h

/-- Only zero is written with a zero in front. -/
theorem eq_nil_of_toDigits {n : ℕ} {digits : List Char}
    (h : Nat.toDigits 10 n = '0' :: digits) : digits = [] := by
  induction n using Nat.strongRecOn generalizing digits with
  | ind n ih =>
      by_cases hn : n < 10
      · rw [Nat.toDigits_of_lt_base hn] at h
        exact (List.cons.inj h).2.symm
      · rw [Nat.toDigits_of_base_le (by decide) (Nat.le_of_not_lt hn)] at h
        obtain ⟨first, tens, htens⟩ := List.exists_cons_of_ne_nil
          (Nat.toDigits_ne_nil (n := n / 10) (b := 10))
        rw [htens, List.cons_append] at h
        obtain ⟨rfl, -⟩ := List.cons.inj h
        -- the tens are written as a single zero, although they are not zero
        have hzero := natOfDigits_toDigits (n / 10)
        rw [htens, ih (n / 10) (by omega) htens] at hzero
        have : Numeral.natOfDigits ['0'] = 0 := by decide
        omega

/-- The digits of a whole number are its whole part. -/
theorem takeWhole?_toDigits (n : ℕ) (h : EndsNumber rest) :
    takeWhole? (Nat.toDigits 10 n ++ rest) = some (Nat.toDigits 10 n, rest) := by
  have htake := takeDigits?_append Nat.toDigits_ne_nil
    (fun c hc => isDigit_of_mem_toDigits (n := n) hc) h
  cases hdigits : Nat.toDigits 10 n with
  | nil => exact absurd hdigits Nat.toDigits_ne_nil
  | cons d ds =>
      by_cases hd : d = '0'
      · subst hd
        rw [eq_nil_of_toDigits hdigits]
        rfl
      · rw [hdigits] at htake
        rw [List.cons_append, takeWhole?]
        · exact htake
        · rintro rest' ⟨rfl, -⟩
          exact hd rfl

/-- **A whole number** is read as it was written. -/
theorem readNumber_toDigits (n : ℕ) (h : EndsNumber rest) :
    readNumber (Nat.toDigits 10 n ++ rest) = some (.natural n, rest) := by
  have hsign : ∀ rest', Nat.toDigits 10 n ++ rest ≠ '-' :: rest' := by
    intro rest' heq
    obtain ⟨d, ds, hdigits⟩ := List.exists_cons_of_ne_nil
      (Nat.toDigits_ne_nil (n := n) (b := 10))
    rw [hdigits, List.cons_append] at heq
    obtain ⟨rfl, -⟩ := List.cons.inj heq
    have : ('-').isDigit = true :=
      isDigit_of_mem_toDigits (n := n) (hdigits ▸ List.mem_cons_self)
    exact absurd this (by decide)
  unfold readNumber
  split
  rename_i sign cs hcs
  split at hcs
  · rename_i heq
    exact absurd heq (hsign _)
  · cases hcs
    simp [takeWhole?_toDigits n h, takeFraction?_of_endsNumber h, takeExponent?_of_endsNumber h,
      natOfDigits_toDigits]

end Numbers

/-! ### One step of the reader -/

section Steps

variable (fuel : ℕ) (cs : List Char)

theorem readValue_succ : readValue (fuel + 1) cs =
    match skipBlanks cs with
    | 'n' :: 'u' :: 'l' :: 'l' :: rest => some (.null, rest)
    | 't' :: 'r' :: 'u' :: 'e' :: rest => some (.bool true, rest)
    | 'f' :: 'a' :: 'l' :: 's' :: 'e' :: rest => some (.bool false, rest)
    | '"' :: rest => (readText rest).map fun (text?, rest) => (ofRead text?, rest)
    | '[' :: rest =>
        match skipBlanks rest with
        | ']' :: rest => some (.array [], rest)
        | rest => (readItems fuel rest).map fun (items, rest) => (.array items, rest)
    | '\x7b' :: rest =>
        match skipBlanks rest with
        | '\x7d' :: rest => some (.object [], rest)
        | rest => (readMembers fuel rest).map fun (members, rest) => (ofMembers members, rest)
    | rest => readNumber rest :=
  rfl

theorem readItems_succ : readItems (fuel + 1) cs =
    (readValue fuel cs).bind fun (item, rest) =>
      match skipBlanks rest with
      | ',' :: rest => (readItems fuel rest).bind fun (items, rest) => some (item :: items, rest)
      | ']' :: rest => some ([item], rest)
      | _ => none :=
  rfl

theorem readMembers_succ : readMembers (fuel + 1) cs =
    match skipBlanks cs with
    | '"' :: rest => (readText rest).bind fun (key?, rest) =>
        match skipBlanks rest with
        | ':' :: rest => (readValue fuel rest).bind fun (value, rest) =>
            match skipBlanks rest with
            | ',' :: rest => (readMembers fuel rest).bind fun (members, rest) =>
                some ((key?, value) :: members, rest)
            | '\x7d' :: rest => some ([(key?, value)], rest)
            | _ => none
        | _ => none
    | _ => none :=
  rfl

end Steps

/-! ### Values -/

/-- A text is read as a value, whatever stands behind it, unless that would make a number longer.
Two steps for each character are enough. -/
def Reads (cs : List Char) (j : Json) : Prop :=
  ∀ fuel rest, 2 * cs.length ≤ fuel → EndsNumber rest →
    readValue fuel (cs ++ rest) = some (j, rest)

/-- A text is read as the items of an array, up to the end of the array. -/
def ReadsItems (cs : List Char) (items : List Json) : Prop :=
  ∀ fuel rest, 2 * cs.length ≤ fuel → readItems fuel (cs ++ rest) = some (items, rest)

/-- A text is read as the members of an object, up to the end of the object. -/
def ReadsMembers (cs : List Char) (members : List (String × Json)) : Prop :=
  ∀ fuel rest, 2 * cs.length ≤ fuel →
    readMembers fuel (cs ++ rest) = some (members.map fun m => (some m.1, m.2), rest)

section Values

variable {bs cs ds rest : List Char} {c : Char} {fuel : ℕ} {j : Json} {items : List Json}
  {members : List (String × Json)} {key : String}

theorem isBlank_of_isDigit (h : c.isDigit = true) : isBlank c = false := by
  rw [← Bool.not_eq_true]
  intro hblank
  simp only [isBlank, Bool.or_eq_true, decide_eq_true_eq] at hblank
  rcases hblank with ((rfl | rfl) | rfl) | rfl <;> exact absurd h (by decide)

theorem skipBlanks_append (h : ∀ b ∈ bs, isBlank b = true) :
    skipBlanks (bs ++ cs) = skipBlanks cs :=
  List.dropWhile_append_of_pos h

theorem skipBlanks_cons (h : isBlank c = false) : skipBlanks (c :: cs) = c :: cs :=
  List.dropWhile_cons_of_neg (Bool.not_eq_true _ ▸ h)

theorem skipBlanks_skipBlanks (cs : List Char) : skipBlanks (skipBlanks cs) = skipBlanks cs :=
  List.dropWhile_idempotent ..

/-- A text that begins with a character is read in a step at least. -/
theorem reads_cons (h : ∀ fuel rest, 2 * cs.length < fuel → EndsNumber rest →
    readValue (fuel + 1) (c :: (cs ++ rest)) = some (j, rest)) : Reads (c :: cs) j := by
  intro fuel rest hfuel hrest
  rw [List.length_cons] at hfuel
  obtain ⟨fuel, rfl⟩ := Nat.exists_eq_add_one_of_ne_zero (show fuel ≠ 0 by omega)
  exact h fuel rest (by omega) hrest

/-- Blanks before a value are passed over. -/
theorem readValue_skipBlanks (fuel : ℕ) (cs : List Char) :
    readValue fuel (skipBlanks cs) = readValue fuel cs := by
  cases fuel with
  | zero => rfl
  | succ fuel => rw [readValue_succ, readValue_succ, skipBlanks_skipBlanks]

/-- Blanks before the first item are passed over. -/
theorem readItems_skipBlanks (fuel : ℕ) (cs : List Char) :
    readItems fuel (skipBlanks cs) = readItems fuel cs := by
  cases fuel with
  | zero => rfl
  | succ fuel => rw [readItems_succ, readItems_succ, readValue_skipBlanks]

/-- Blanks before the first member are passed over. -/
theorem readMembers_skipBlanks (fuel : ℕ) (cs : List Char) :
    readMembers fuel (skipBlanks cs) = readMembers fuel cs := by
  cases fuel with
  | zero => rfl
  | succ fuel => rw [readMembers_succ, readMembers_succ, skipBlanks_skipBlanks]

/-- A value may be written with blanks before it. -/
theorem Reads.append (h : Reads cs j) (hbs : ∀ b ∈ bs, isBlank b = true) : Reads (bs ++ cs) j := by
  intro fuel rest hfuel hrest
  rw [List.length_append] at hfuel
  rw [List.append_assoc, ← readValue_skipBlanks, skipBlanks_append hbs, readValue_skipBlanks]
  exact h fuel rest (by omega) hrest

/-- Members may be written with blanks before them. -/
theorem ReadsMembers.append (h : ReadsMembers cs members) (hbs : ∀ b ∈ bs, isBlank b = true) :
    ReadsMembers (bs ++ cs) members := by
  intro fuel rest hfuel
  rw [List.length_append] at hfuel
  rw [List.append_assoc, ← readMembers_skipBlanks, skipBlanks_append hbs, readMembers_skipBlanks]
  exact h fuel rest (by omega)

/-! #### Values without parts -/

/-- A digit begins a number. -/
theorem readValue_of_isDigit (h : c.isDigit = true) :
    readValue (fuel + 1) (c :: cs) = readNumber (c :: cs) := by
  rw [readValue_succ, skipBlanks_cons (isBlank_of_isDigit h)]
  -- every other value begins with a character that is not a digit
  split
  case h_7 => rfl
  all_goals
    rename_i heq
    obtain ⟨rfl, -⟩ := List.cons.inj heq
    exact absurd h (by decide)

theorem reads_natural (n : ℕ) : Reads (Nat.toDigits 10 n) (.natural n) := by
  obtain ⟨d, ds, hdigits⟩ := List.exists_cons_of_ne_nil
    (Nat.toDigits_ne_nil (n := n) (b := 10))
  have hd : d.isDigit = true := isDigit_of_mem_toDigits (n := n) (hdigits ▸ List.mem_cons_self)
  rw [hdigits]
  refine reads_cons fun fuel rest _ hrest => ?_
  rw [readValue_of_isDigit hd, ← List.cons_append, ← hdigits, readNumber_toDigits n hrest]

theorem reads_quote (text : String) : Reads (quote text) (.string text) := by
  refine reads_cons fun fuel rest _ _ => ?_
  rw [List.append_assoc, List.singleton_append, readValue_succ, skipBlanks_cons (by decide)]
  simp only [readText_quote]
  rfl

theorem reads_null : Reads (scalar .null) .null :=
  reads_cons fun _ _ _ _ => rfl

theorem reads_bool (b : Bool) : Reads (scalar (.bool b)) (.bool b) := by
  cases b with
  | false | true =>
      exact reads_cons fun _ _ _ _ => rfl

/-! #### Arrays -/

/-- Nothing is read where an array ends. -/
theorem readItems_close (fuel : ℕ) (rest : List Char) : readItems fuel (']' :: rest) = none := by
  have hvalue : ∀ fuel, readValue fuel (']' :: rest) = none := by
    intro fuel
    cases fuel <;> rfl
  cases fuel with
  | zero => rfl
  | succ fuel => rw [readItems_succ, hvalue, Option.bind_none]

theorem reads_emptyArray : Reads ['[', ']'] (.array []) :=
  reads_cons fun _ _ _ _ => rfl

/-- What ends behind blanks is not a longer number. -/
theorem endsNumber_append (hbs : ∀ b ∈ bs, isBlank b = true) (hcs : EndsNumber cs) :
    EndsNumber (bs ++ cs) := by
  cases bs with
  | nil => exact hcs
  | cons b bs =>
      intro c hc
      obtain rfl : b = c := Option.some.inj hc
      have hb := hbs b List.mem_cons_self
      simp only [isBlank, Bool.or_eq_true, decide_eq_true_eq] at hb
      rcases hb with ((rfl | rfl) | rfl) | rfl <;> decide

/-- The last item of an array. -/
theorem readsItems_last (h : Reads cs j) (hbs : ∀ b ∈ bs, isBlank b = true) :
    ReadsItems (cs ++ (bs ++ [']'])) [j] := by
  intro fuel rest hfuel
  simp only [List.length_append, List.length_singleton] at hfuel
  obtain ⟨fuel, rfl⟩ := Nat.exists_eq_add_one_of_ne_zero (show fuel ≠ 0 by omega)
  have hends : EndsNumber (bs ++ ']' :: rest) :=
    endsNumber_append hbs (endsNumber_cons (by decide))
  rw [List.append_assoc, List.append_assoc, List.singleton_append, readItems_succ,
    h fuel _ (by omega) hends]
  simp only [Option.bind_some, skipBlanks_append hbs]
  rfl

/-- An item of an array before others. -/
theorem ReadsItems.cons (hs : ReadsItems ds items) (h : Reads cs j) :
    ReadsItems (cs ++ ',' :: ds) (j :: items) := by
  intro fuel rest hfuel
  simp only [List.length_append, List.length_cons] at hfuel
  obtain ⟨fuel, rfl⟩ := Nat.exists_eq_add_one_of_ne_zero (show fuel ≠ 0 by omega)
  rw [List.append_assoc, List.cons_append, readItems_succ,
    h fuel _ (by omega) (endsNumber_cons (by decide))]
  simp only [Option.bind_some, skipBlanks_cons (c := ',') (by decide), hs fuel rest (by omega)]

/-- **An array** is read if its items are. -/
theorem ReadsItems.reads (h : ReadsItems cs items) : Reads ('[' :: cs) (.array items) := by
  refine reads_cons fun fuel rest hfuel _ => ?_
  have hitems : readItems fuel (skipBlanks (cs ++ rest)) = some (items, rest) :=
    (readItems_skipBlanks ..).trans (h fuel rest hfuel.le)
  rw [readValue_succ, skipBlanks_cons (by decide)]
  simp only
  -- if the array ended here, no items would be read
  split
  · rename_i rest' heq
    rw [heq, readItems_close] at hitems
    cases hitems
  · rw [hitems]
    rfl

/-! #### Objects -/

/-- Nothing is read where an object ends. -/
theorem readMembers_close (fuel : ℕ) (rest : List Char) :
    readMembers fuel ('\x7d' :: rest) = none := by
  cases fuel <;> rfl

theorem reads_emptyObject : Reads ['\x7b', '\x7d'] (.object []) :=
  reads_cons fun _ _ _ _ => rfl

/-- The last member of an object. -/
theorem readsMembers_last (key : String) (h : Reads cs j) (hbs : ∀ b ∈ bs, isBlank b = true) :
    ReadsMembers (quote key ++ ':' :: (cs ++ (bs ++ ['\x7d']))) [(key, j)] := by
  intro fuel rest hfuel
  simp only [List.length_append, List.length_cons, List.length_nil] at hfuel
  obtain ⟨fuel, rfl⟩ := Nat.exists_eq_add_one_of_ne_zero (show fuel ≠ 0 by omega)
  have hends : EndsNumber (bs ++ '\x7d' :: rest) :=
    endsNumber_append hbs (endsNumber_cons (by decide))
  simp only [quote, List.append_assoc, List.cons_append, List.nil_append]
  rw [readMembers_succ, skipBlanks_cons (by decide)]
  simp only [readText_quote, Option.bind_some, skipBlanks_cons (c := ':') (by decide),
    h fuel _ (by omega) hends, skipBlanks_append hbs]
  rfl

/-- A member of an object before others. -/
theorem ReadsMembers.cons (hs : ReadsMembers ds members) (key : String) (h : Reads cs j) :
    ReadsMembers (quote key ++ ':' :: (cs ++ ',' :: ds)) ((key, j) :: members) := by
  intro fuel rest hfuel
  simp only [List.length_append, List.length_cons] at hfuel
  obtain ⟨fuel, rfl⟩ := Nat.exists_eq_add_one_of_ne_zero (show fuel ≠ 0 by omega)
  simp only [quote, List.append_assoc, List.cons_append, List.nil_append]
  rw [readMembers_succ, skipBlanks_cons (by decide)]
  simp only [readText_quote, Option.bind_some, skipBlanks_cons (c := ':') (by decide),
    h fuel _ (by omega) (endsNumber_cons (c := ',') (by decide)),
    skipBlanks_cons (c := ',') (by decide), hs fuel rest (by omega)]
  rfl

/-- Values are read one after the other as what they were made from. -/
theorem mapM_map_eq_some {α β : Type} {f : β → Option α} {g : α → β} {l : List α}
    (h : ∀ a ∈ l, f (g a) = some a) : (l.map g).mapM f = some l := by
  induction l with
  | nil => rfl
  | cons a l ih =>
      obtain ⟨ha, hl⟩ := List.forall_mem_cons.mp h
      simp only [List.map_cons, List.mapM_cons, ha, ih hl, Option.bind_eq_bind, Option.bind_some]
      rfl

/-- An object is readable if all its keys are. -/
theorem ofMembers_map_some (members : List (String × Json)) :
    ofMembers (members.map fun m => (some m.1, m.2)) = .object members := by
  have hkeys : (members.map fun m => (some m.1, m.2)).mapM
      (fun (m : Option String × Json) => m.1.map fun key => (key, m.2)) = some members :=
    mapM_map_eq_some fun _ _ => rfl
  rw [ofMembers]
  simp only [hkeys]

/-- **An object** is read if its members are. -/
theorem ReadsMembers.reads (h : ReadsMembers cs members) :
    Reads ('\x7b' :: cs) (.object members) := by
  refine reads_cons fun fuel rest hfuel _ => ?_
  have hmembers := (readMembers_skipBlanks ..).trans (h fuel rest hfuel.le)
  rw [readValue_succ, skipBlanks_cons (by decide)]
  simp only
  split
  · rename_i rest' heq
    rw [heq, readMembers_close] at hmembers
    cases hmembers
  · rw [hmembers, Option.map_some, ofMembers_map_some]

/-- A text that is read as a value is a document. -/
theorem Reads.parse? {text : String} (h : Reads text.toList j) : parse? text = some j := by
  have hvalue := h (2 * text.toList.length + 2) [] (by omega) endsNumber_nil
  rw [List.append_nil] at hvalue
  rw [Json.parse?]
  simp only [hvalue, Option.bind_eq_bind, Option.bind_some]
  rfl

end Values

end LinkExpr.Json
