/-!
# Segments

A text falls into segments: placeholder-like ranges and the text around them. A range is delimited
by an opening marker, two `{`, and the first closing marker after it, two `}`; when further opening
markers stand before that closing marker, the range begins at the last of them. An opening marker
without a closing marker after it leaves everything from there on unterminated.

## Main results

* `splitAtPair?_eq_some_iff`, `splitAtLastPair?_eq_some_iff`: the two cuts find the first and the
  last place where a character stands twice in a row.
* `innermost_spec`: the last opening marker before a closing one, and nothing in between opens
  another range.
* `raw_segments`: the segments of a text, one after the other, are the text.
-/

namespace LinkExpr

/-- Somewhere in the text a character stands twice in a row. -/
def HasPair (c : Char) (cs : List Char) : Prop := [c, c] <:+: cs

instance (c : Char) (cs : List Char) : Decidable (HasPair c cs) :=
  inferInstanceAs (Decidable ([c, c] <:+: cs))

theorem hasPair_cons_cons {c a b : Char} {cs : List Char} :
    HasPair c (a :: b :: cs) ↔ (a = c ∧ b = c) ∨ HasPair c (b :: cs) := by
  unfold HasPair
  rw [List.infix_cons_iff]
  simp [List.cons_prefix_cons, eq_comm]

theorem not_hasPair_nil (c : Char) : ¬ HasPair c [] := by
  simp [HasPair]

theorem not_hasPair_singleton (c a : Char) : ¬ HasPair c [a] := by
  simp [HasPair, List.infix_cons_iff]

/-- Cuts a text around the first place where a character stands twice in a row. -/
def splitAtPair? (c : Char) : List Char → Option (List Char × List Char)
  | a :: b :: rest =>
      if a = c ∧ b = c then some ([], rest)
      else (splitAtPair? c (b :: rest)).map fun (before, after) => (a :: before, after)
  | _ => none

/-- Cuts a text around the last place where a character stands twice in a row. -/
def splitAtLastPair? (c : Char) : List Char → Option (List Char × List Char)
  | a :: b :: rest =>
      match splitAtLastPair? c (b :: rest) with
      | some (before, after) => some (a :: before, after)
      | none => if a = c ∧ b = c then some ([], rest) else none
  | _ => none

theorem splitAtPair?_cons_cons (c a b : Char) (cs : List Char) :
    splitAtPair? c (a :: b :: cs) =
      if a = c ∧ b = c then some ([], cs)
      else (splitAtPair? c (b :: cs)).map fun (before, after) => (a :: before, after) := by
  rw [splitAtPair?]

theorem splitAtPair?_eq_none_iff {c : Char} {cs : List Char} :
    splitAtPair? c cs = none ↔ ¬ HasPair c cs := by
  match cs with
  | [] => simp [splitAtPair?, not_hasPair_nil]
  | [a] => simp [splitAtPair?, not_hasPair_singleton]
  | a :: b :: rest =>
      have ih := @splitAtPair?_eq_none_iff c (b :: rest)
      by_cases h : a = c ∧ b = c
      · simp [splitAtPair?_cons_cons, h, hasPair_cons_cons]
      · simp [splitAtPair?_cons_cons, h, hasPair_cons_cons, ih]

/-- The first cut: nothing before it, together with half of the pair, holds a pair. -/
theorem splitAtPair?_eq_some_iff {c : Char} {cs before after : List Char} :
    splitAtPair? c cs = some (before, after) ↔
      cs = before ++ c :: c :: after ∧ ¬ HasPair c (before ++ [c]) := by
  match cs with
  | [] => simp [splitAtPair?]
  | [a] =>
      simp only [splitAtPair?, reduceCtorEq, false_iff, not_and]
      intro h
      have := congrArg List.length h
      simp at this
      omega
  | a :: b :: rest =>
      rw [splitAtPair?_cons_cons]
      by_cases h : a = c ∧ b = c
      · obtain ⟨rfl, rfl⟩ := h
        simp only [and_self, if_true, Option.some.injEq, Prod.mk.injEq]
        constructor
        · rintro ⟨rfl, rfl⟩
          exact ⟨rfl, not_hasPair_singleton _ _⟩
        · rintro ⟨heq, hfree⟩
          match before with
          | [] => simpa using heq
          | [x] =>
              simp only [List.cons_append, List.nil_append, List.cons.injEq] at heq
              obtain ⟨rfl, -⟩ := heq
              exact absurd ⟨[], [], rfl⟩ hfree
          | x :: y :: before =>
              simp only [List.cons_append, List.cons.injEq] at heq
              obtain ⟨rfl, rfl, -⟩ := heq
              exact absurd ⟨[], before ++ [b], rfl⟩ hfree
      · simp only [h, if_false, Option.map_eq_some_iff, Prod.mk.injEq, Prod.exists]
        constructor
        · rintro ⟨inner, after', hsplit, rfl, rfl⟩
          obtain ⟨heq, hfree⟩ := splitAtPair?_eq_some_iff.1 hsplit
          refine ⟨by rw [heq]; rfl, ?_⟩
          match inner with
          | [] =>
              simp only [List.nil_append, List.cons.injEq] at heq
              simp only [List.cons_append, List.nil_append, hasPair_cons_cons, not_or]
              exact ⟨fun hc => h ⟨hc.1, heq.1⟩, not_hasPair_singleton _ _⟩
          | y :: inner =>
              simp only [List.cons_append, List.cons.injEq] at heq
              simp only [List.cons_append, hasPair_cons_cons, not_or]
              exact ⟨fun hc => h ⟨hc.1, heq.1 ▸ hc.2⟩, hfree⟩
        · rintro ⟨heq, hfree⟩
          match before with
          | [] =>
              simp only [List.nil_append, List.cons.injEq] at heq
              exact absurd ⟨heq.1, heq.2.1⟩ h
          | x :: inner =>
              simp only [List.cons_append, List.cons.injEq] at heq
              obtain ⟨rfl, heq⟩ := heq
              refine ⟨inner, after, splitAtPair?_eq_some_iff.2 ⟨heq, ?_⟩, rfl, rfl⟩
              intro hpair
              match inner with
              | [] => exact not_hasPair_singleton _ _ hpair
              | y :: inner => exact hfree (hasPair_cons_cons.2 (.inr hpair))

theorem length_of_splitAtPair? {c : Char} {cs before after : List Char}
    (h : splitAtPair? c cs = some (before, after)) : after.length + 2 ≤ cs.length := by
  have := (splitAtPair?_eq_some_iff.1 h).1
  simp [this]

theorem splitAtLastPair?_cons_cons (c a b : Char) (cs : List Char) :
    splitAtLastPair? c (a :: b :: cs) =
      match splitAtLastPair? c (b :: cs) with
      | some (before, after) => some (a :: before, after)
      | none => if a = c ∧ b = c then some ([], cs) else none := by
  rw [splitAtLastPair?]

theorem splitAtLastPair?_eq_none_iff {c : Char} {cs : List Char} :
    splitAtLastPair? c cs = none ↔ ¬ HasPair c cs := by
  match cs with
  | [] => simp [splitAtLastPair?, not_hasPair_nil]
  | [a] => simp [splitAtLastPair?, not_hasPair_singleton]
  | a :: b :: rest =>
      have ih := @splitAtLastPair?_eq_none_iff c (b :: rest)
      rw [splitAtLastPair?_cons_cons, hasPair_cons_cons]
      split
      · rename_i hsplit
        simp only [hsplit, reduceCtorEq, false_iff, Classical.not_not] at ih
        simp [ih]
      · rename_i hsplit
        have := ih.1 hsplit
        simp [this]

/-- The last cut: nothing after it, together with half of the pair, holds a pair. -/
theorem splitAtLastPair?_spec {c : Char} {cs before after : List Char}
    (h : splitAtLastPair? c cs = some (before, after)) :
    cs = before ++ c :: c :: after ∧ ¬ HasPair c (c :: after) := by
  match cs with
  | [] => simp [splitAtLastPair?] at h
  | [a] => simp [splitAtLastPair?] at h
  | a :: b :: rest =>
      rw [splitAtLastPair?_cons_cons] at h
      split at h
      · rename_i inner after' hsplit
        obtain ⟨rfl, rfl⟩ := Prod.mk.inj (Option.some.inj h)
        obtain ⟨heq, hfree⟩ := splitAtLastPair?_spec hsplit
        exact ⟨by rw [heq]; rfl, hfree⟩
      · rename_i hnone
        have hfree := splitAtLastPair?_eq_none_iff.1 hnone
        split at h
        · rename_i hc
          obtain ⟨rfl, rfl⟩ := Prod.mk.inj (Option.some.inj h)
          obtain ⟨rfl, rfl⟩ := hc
          exact ⟨rfl, hfree⟩
        · cases h

/-- A part of a text, as far as placeholders are concerned. -/
inductive Segment
  /-- Text without a range of its own; it may be empty. -/
  | text (chars : List Char)
  /-- A range between an opening and a closing marker. -/
  | delimited (body : List Char)
  /-- What follows an opening marker that no closing marker follows. -/
  | unterminated (rest : List Char)
deriving DecidableEq, Repr

/-- A segment as it is written. -/
def Segment.raw : Segment → List Char
  | .text chars => chars
  | .delimited body => '{' :: '{' :: (body ++ ['}', '}'])
  | .unterminated rest => '{' :: '{' :: rest

/-- The text between an opening marker and the first closing marker after it, cut at the last
opening marker before the closing one: what is skipped, beginning with the first marker if
anything is, and the body that is left. -/
def innermost (between : List Char) : List Char × List Char :=
  (splitAtLastPair? '{' ('{' :: '{' :: between)).getD ([], between)

/-- The skipped text and the body make up the range, and the body opens no further range. -/
theorem innermost_spec (between : List Char) :
    '{' :: '{' :: between = (innermost between).1 ++ '{' :: '{' :: (innermost between).2 ∧
      ¬ HasPair '{' ('{' :: (innermost between).2) := by
  unfold innermost
  cases h : splitAtLastPair? '{' ('{' :: '{' :: between) with
  | none =>
      exact absurd ⟨[], between, rfl⟩ (splitAtLastPair?_eq_none_iff.1 h)
  | some cut => exact splitAtLastPair?_spec h

/-- The segments of a text from left to right. -/
def segments (cs : List Char) : List Segment :=
  match _hopen : splitAtPair? '{' cs with
  | none => [.text cs]
  | some (before, inside) =>
      match _hclose : splitAtPair? '}' inside with
      | none => [.text before, .unterminated inside]
      | some (between, after) =>
          let (skipped, body) := innermost between
          .text (before ++ skipped) :: .delimited body :: segments after
termination_by cs.length
decreasing_by
  have := length_of_splitAtPair? _hopen
  have := length_of_splitAtPair? _hclose
  omega

/-- The segments of a text, one after the other, are the text. -/
@[simp] theorem raw_segments (cs : List Char) : (segments cs).flatMap Segment.raw = cs := by
  rw [segments]
  split
  · simp [Segment.raw]
  · rename_i before inside hopen
    have hcs := (splitAtPair?_eq_some_iff.1 hopen).1
    split
    · simp [Segment.raw, hcs]
    · rename_i between after hclose
      have hinside := (splitAtPair?_eq_some_iff.1 hclose).1
      have := length_of_splitAtPair? hopen
      have := length_of_splitAtPair? hclose
      have ih := raw_segments after
      have hinner := (innermost_spec between).1
      simp only [List.flatMap_cons, Segment.raw, ih]
      rw [hcs, hinside]
      calc
        _ = before ++ ((innermost between).1 ++ '{' :: '{' :: (innermost between).2)
              ++ '}' :: '}' :: after := by simp
        _ = _ := by rw [← hinner]; simp
termination_by cs.length

end LinkExpr
