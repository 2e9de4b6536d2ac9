import LinkExpr.Proofs.Scan.Grammar

/-!
# Segments Are Ranges

The segments of a text are related to the grammar in two steps. `Segmented` describes a list of
segments from left to right: what leads up to a range holds no closed range of its own, and the
body of the range is the innermost one. From this description both directions follow by induction:
every range of the grammar is a segment, and every segment is a range of the grammar, whatever was
read before it.

## Main results

* `segmented_segments`: scanning cuts a text as `Segmented` says.
* `delimited_mem_iff`, `unterminated_mem_iff`: the segments of a text are exactly its ranges.
* `segments_reading_iff`: the same at byte offsets, for what the ranges say.
* `segments_of_close`, `segments_of_cleanBody`: the segments from an opening marker on do not depend
  on what came before it.
-/

namespace LinkExpr

open Text

/-! ### Cutting a text at markers -/

/-- The first pair of a text has one place. -/
theorem first_pair_unique {c : Char} {a a' b b' : List Char}
    (h : a ++ c :: c :: b = a' ++ c :: c :: b') (ha : ¬ HasPair c (a ++ [c]))
    (ha' : ¬ HasPair c (a' ++ [c])) : a = a' ∧ b = b' := by
  have hsplit := splitAtPair?_eq_some_iff.mpr ⟨h, ha'⟩
  rw [splitAtPair?_eq_some_iff.mpr ⟨rfl, ha⟩] at hsplit
  exact Prod.mk.inj (Option.some.inj hsplit)

/-- A pair does not come before the first one. -/
theorem exists_append_of_first_pair {c : Char} {a a' b b' : List Char}
    (h : a ++ c :: c :: b = a' ++ c :: c :: b') (ha : ¬ HasPair c (a ++ [c])) :
    ∃ m, a' = a ++ m ∧ c :: c :: b = m ++ c :: c :: b' := by
  rcases List.append_eq_append_iff.mp h with ⟨m, ha', hm⟩ | ⟨m, rfl, hm⟩
  · exact ⟨m, ha', hm⟩
  · match m with
    | [] => exact ⟨[], by simp, by simpa using hm.symm⟩
    | [x] =>
        simp only [List.cons_append, List.nil_append, List.cons.injEq] at hm
        obtain ⟨rfl, -⟩ := hm
        exact absurd ⟨a', [], by simp⟩ ha
    | x :: y :: m =>
        simp only [List.cons_append, List.cons.injEq] at hm
        obtain ⟨rfl, rfl, -⟩ := hm
        exact absurd ⟨a', m ++ [c], by simp⟩ ha

/-- The last pair of a text has one place. -/
theorem last_pair_unique {c : Char} {a a' b b' : List Char}
    (h : a ++ c :: c :: b = a' ++ c :: c :: b') (hb : ¬ HasPair c (c :: b))
    (hb' : ¬ HasPair c (c :: b')) : a = a' ∧ b = b' := by
  have key : ∀ {m b b' : List Char}, c :: c :: b = m ++ c :: c :: b' →
      ¬ HasPair c (c :: b) → m = [] := by
    intro m b b' hm hb
    match m with
    | [] => rfl
    | [x] =>
        simp only [List.cons_append, List.nil_append, List.cons.injEq] at hm
        exact absurd ⟨[], b', by simp [hm.2.2]⟩ hb
    | x :: y :: m =>
        simp only [List.cons_append, List.cons.injEq] at hm
        exact absurd ⟨c :: m, b', by simp [hm.2.2]⟩ hb
  rcases List.append_eq_append_iff.mp h with ⟨m, rfl, hm⟩ | ⟨m, rfl, hm⟩
  · obtain rfl := key hm hb
    simpa using hm
  · obtain rfl := key hm hb'
    simpa using hm.symm

/-- Markers of different kinds do not overlap: one of them comes first. -/
theorem open_close_disjoint {a b c d : List Char}
    (h : a ++ '}' :: '}' :: b = c ++ '{' :: '{' :: d) :
    (∃ m, c = a ++ '}' :: '}' :: m ∧ b = m ++ '{' :: '{' :: d) ∨
      ∃ m, a = c ++ '{' :: '{' :: m ∧ d = m ++ '}' :: '}' :: b := by
  rcases List.append_eq_append_iff.mp h with ⟨m, rfl, hm⟩ | ⟨m, rfl, hm⟩
  · match m with
    | [] => simp at hm
    | [x] => simp at hm
    | x :: y :: m =>
        simp only [List.cons_append, List.cons.injEq] at hm
        obtain ⟨rfl, rfl, hb⟩ := hm
        exact .inl ⟨m, by simp, hb⟩
  · match m with
    | [] => simp at hm
    | [x] => simp at hm
    | x :: y :: m =>
        simp only [List.cons_append, List.cons.injEq] at hm
        obtain ⟨rfl, rfl, hd⟩ := hm
        exact .inr ⟨m, by simp, hd⟩

/-- A part of a text without a pair has none either. -/
theorem HasPair.mono {c : Char} {part cs : List Char} (h : HasPair c part) (hsub : part <:+: cs) :
    HasPair c cs :=
  List.IsInfix.trans h hsub

/-- An opening marker in front of a text adds no closing marker. -/
theorem hasPair_close_open_iff {cs : List Char} :
    HasPair '}' ('{' :: '{' :: cs) ↔ HasPair '}' cs := by
  cases cs with
  | nil => simp [hasPair_cons_cons, not_hasPair_singleton, not_hasPair_nil]
  | cons c cs => simp [hasPair_cons_cons]

/-! ### Segments from left to right -/

/-- How a text is cut into segments. What leads up to a range may hold opening markers, but none of
them, nor the one of the range, is closed before the range is. -/
inductive Segmented : List Char → List Segment → Prop
  /-- Text without an opening marker is one segment. -/
  | text {cs : List Char} : ¬ HasPair '{' cs → Segmented cs [.text cs]
  /-- From the first opening marker on, nothing closes. -/
  | unterminated {before rest : List Char} :
      ¬ HasPair '{' (before ++ ['{']) → ¬ HasPair '}' rest →
        Segmented (before ++ '{' :: '{' :: rest) [.text before, .unterminated rest]
  /-- A range, with the text that leads up to it and the segments that follow. -/
  | range {lead body after : List Char} {ss : List Segment} :
      ¬ HasPair '{' ('{' :: body) →
        (∀ a b, lead ++ '{' :: '{' :: body = a ++ '{' :: '{' :: b → ¬ HasPair '}' (b ++ ['}'])) →
          Segmented after ss →
            Segmented (lead ++ '{' :: '{' :: (body ++ '}' :: '}' :: after))
              (.text lead :: .delimited body :: ss)

theorem segments_of_no_open {cs : List Char} (hopen : splitAtPair? '{' cs = none) :
    segments cs = [.text cs] := by
  rw [segments]
  split <;> simp_all

theorem segments_of_no_close {cs before inside : List Char}
    (hopen : splitAtPair? '{' cs = some (before, inside))
    (hclose : splitAtPair? '}' inside = none) :
    segments cs = [.text before, .unterminated inside] := by
  rw [segments]
  split <;> simp_all
  split <;> simp_all

theorem segments_of_range {cs before inside between after : List Char}
    (hopen : splitAtPair? '{' cs = some (before, inside))
    (hclose : splitAtPair? '}' inside = some (between, after)) :
    segments cs = .text (before ++ (innermost between).1) :: .delimited (innermost between).2 ::
      segments after := by
  rw [segments]
  split <;> simp_all
  split <;> simp_all

/-- Scanning cuts a text into segments in this way. -/
theorem segmented_segments (cs : List Char) : Segmented cs (segments cs) := by
  induction cs using segments.induct with
  | case1 cs hopen =>
      rw [segments_of_no_open hopen]
      exact .text (splitAtPair?_eq_none_iff.mp hopen)
  | case2 cs before inside hopen hclose =>
      rw [segments_of_no_close hopen hclose]
      obtain ⟨rfl, hfirst⟩ := splitAtPair?_eq_some_iff.mp hopen
      exact .unterminated hfirst (splitAtPair?_eq_none_iff.mp hclose)
  | case3 cs before inside hopen between after hclose skipped body hinner ih =>
      rw [segments_of_range hopen hclose, hinner]
      obtain ⟨rfl, hfirst⟩ := splitAtPair?_eq_some_iff.mp hopen
      obtain ⟨rfl, hbetween⟩ := splitAtPair?_eq_some_iff.mp hclose
      obtain ⟨hcut, hbody⟩ := innermost_spec between
      rw [hinner] at hcut hbody
      have htext : before ++ '{' :: '{' :: (between ++ '}' :: '}' :: after) =
          (before ++ skipped) ++ '{' :: '{' :: (body ++ '}' :: '}' :: after) := by
        calc before ++ '{' :: '{' :: (between ++ '}' :: '}' :: after)
            = before ++ ('{' :: '{' :: between) ++ '}' :: '}' :: after := by simp
          _ = (before ++ skipped) ++ '{' :: '{' :: (body ++ '}' :: '}' :: after) := by
              rw [hcut]
              simp
      rw [htext]
      refine .range hbody ?_ ih
      intro a b hab hpair
      have hopened : before ++ '{' :: '{' :: between = a ++ '{' :: '{' :: b := by
        rw [hcut, ← List.append_assoc]
        exact hab
      obtain ⟨m, rfl, hm⟩ := exists_append_of_first_pair hopened hfirst
      apply hbetween
      rw [← hasPair_close_open_iff]
      refine hpair.mono ⟨m ++ ['{', '{'], [], ?_⟩
      calc m ++ ['{', '{'] ++ (b ++ ['}']) ++ []
          = (m ++ '{' :: '{' :: b) ++ ['}'] := by simp
        _ = '{' :: '{' :: (between ++ ['}']) := by rw [← hm]; simp

namespace Segmented

variable {cs before body rest : List Char} {ss : List Segment}

/-- The segments, one after the other, are the text. -/
theorem flatMap_raw (h : Segmented cs ss) : ss.flatMap Segment.raw = cs := by
  induction h with
  | text | unterminated => simp [Segment.raw]
  | range _ _ _ ih => simp [Segment.raw, ih]

/-- The bodies of the segments are clean. -/
theorem cleanBody (h : Segmented cs ss) (hmem : .delimited body ∈ ss) : CleanBody body := by
  induction h with
  | text | unterminated => simp at hmem
  | @range lead body' after ss hbody hquiet _ ih =>
      simp only [List.mem_cons, reduceCtorEq, Segment.delimited.injEq, false_or] at hmem
      rcases hmem with rfl | hmem
      · exact ⟨hbody, hquiet lead body rfl⟩
      · exact ih hmem

/-- **Every range of the text is a segment**, in its place. -/
theorem exists_delimited {after : List Char} (h : Segmented cs ss)
    (hcut : cs = before ++ '{' :: '{' :: (body ++ '}' :: '}' :: after)) (hclean : CleanBody body) :
    ∃ front back, ss = front ++ .delimited body :: back ∧ front.flatMap Segment.raw = before := by
  induction h generalizing before with
  | text hfree =>
      exact absurd ⟨before, body ++ '}' :: '}' :: after, by simp [hcut]⟩ hfree
  | @unterminated lead rest hfirst hrest =>
      have hmarkers : (before ++ '{' :: '{' :: body) ++ '}' :: '}' :: after =
          lead ++ '{' :: '{' :: rest := by
        simp [hcut]
      rcases open_close_disjoint hmarkers with ⟨m, rfl, -⟩ | ⟨m, -, rfl⟩
      · exact absurd ⟨before, body ++ '}' :: '}' :: (m ++ ['{']), by simp⟩ hfirst
      · exact absurd ⟨m, after, by simp⟩ hrest
  | @range lead body' after' ss hbody hquiet _ ih =>
      have hmarkers : (lead ++ '{' :: '{' :: body') ++ '}' :: '}' :: after' =
          before ++ '{' :: '{' :: (body ++ '}' :: '}' :: after) := by
        simp [← hcut]
      rcases open_close_disjoint hmarkers with ⟨m, rfl, hafter⟩ | ⟨m, hopen, hrest⟩
      · -- the range begins after the first one
        obtain ⟨front, back, rfl, hfront⟩ := ih hafter
        exact ⟨.text lead :: .delimited body' :: front, back, rfl, by simp [Segment.raw, hfront]⟩
      · -- it begins before the first closing marker, and so it is the first one
        obtain ⟨rfl, rfl⟩ := first_pair_unique hrest hclean.2 (hquiet _ _ hopen)
        obtain ⟨rfl, rfl⟩ := last_pair_unique hopen hbody hclean.1
        exact ⟨[.text lead], ss, rfl, by simp [Segment.raw]⟩

/-- From an unterminated segment on, no marker is closed, and the segment is the last one. -/
theorem of_unterminated (h : Segmented cs ss) {front back : List Segment}
    (hss : ss = front ++ .unterminated rest :: back) : back = [] ∧ ¬ HasPair '}' rest := by
  induction h generalizing front with
  | text => simp [List.singleton_eq_append_iff] at hss
  | @unterminated lead rest' _ hrest =>
      match front with
      | [] => simp at hss
      | [x] =>
          simp only [List.cons_append, List.nil_append, List.cons.injEq,
            Segment.unterminated.injEq] at hss
          obtain ⟨-, rfl, rfl⟩ := hss
          exact ⟨rfl, hrest⟩
      | x :: y :: front => simp at hss
  | @range lead body' after' ss' _ _ _ ih =>
      match front with
      | [] => simp at hss
      | [x] => simp at hss
      | x :: y :: front =>
          simp only [List.cons_append, List.cons.injEq] at hss
          exact ih hss.2.2

/-- **Every unclosed marker of the text comes with an unterminated segment** that begins no later
than the marker. -/
theorem exists_unterminated (h : Segmented cs ss) (hcut : cs = before ++ '{' :: '{' :: rest)
    (hrest : ¬ HasPair '}' rest) :
    ∃ front rest' m, ss = front ++ [.unterminated rest'] ∧
      before = front.flatMap Segment.raw ++ m := by
  induction h generalizing before with
  | text hfree => exact absurd ⟨before, rest, by simp [hcut]⟩ hfree
  | @unterminated lead rest' hfirst _ =>
      obtain ⟨m, rfl, -⟩ := exists_append_of_first_pair hcut hfirst
      exact ⟨[.text lead], rest', m, rfl, by simp [Segment.raw]⟩
  | @range lead body' after' ss _ _ _ ih =>
      have hmarkers : (lead ++ '{' :: '{' :: body') ++ '}' :: '}' :: after' =
          before ++ '{' :: '{' :: rest := by
        simp [← hcut]
      rcases open_close_disjoint hmarkers with ⟨m, rfl, hafter⟩ | ⟨m, -, rfl⟩
      · obtain ⟨front, rest', m', rfl, rfl⟩ := ih hafter
        exact ⟨.text lead :: .delimited body' :: front, rest', m', rfl, by simp [Segment.raw]⟩
      · exact absurd ⟨m, after', by simp⟩ hrest

end Segmented

/-! ### Segments and byte ranges -/

/-- The segments that are ranges are exactly the ranges of the text. -/
theorem delimited_mem_iff {cs before body : List Char} :
    (∃ front back, segments cs = front ++ .delimited body :: back ∧
        front.flatMap Segment.raw = before) ↔
      CleanBody body ∧ ∃ after, cs = before ++ '{' :: '{' :: (body ++ '}' :: '}' :: after) := by
  have h := segmented_segments cs
  constructor
  · rintro ⟨front, back, hss, rfl⟩
    refine ⟨h.cleanBody (by simp [hss]), back.flatMap Segment.raw, ?_⟩
    rw [← h.flatMap_raw, hss]
    simp [Segment.raw]
  · rintro ⟨hclean, after, hcut⟩
    exact h.exists_delimited hcut hclean

/-- An unterminated segment begins with the first unclosed marker of the text. -/
theorem firstUnclosed_of_segments {cs rest : List Char} {front back : List Segment}
    (hss : segments cs = front ++ .unterminated rest :: back) :
    FirstUnclosed cs (byteSize (front.flatMap Segment.raw)) := by
  have h := segmented_segments cs
  obtain ⟨rfl, hrest⟩ := h.of_unterminated hss
  have hcs : cs = front.flatMap Segment.raw ++ '{' :: '{' :: rest := by
    rw [← h.flatMap_raw, hss]
    simp [Segment.raw]
  refine ⟨unclosed_iff.mpr ⟨_, rest, hcs, hrest, rfl⟩, ?_⟩
  intro n hn hunclosed
  obtain ⟨before, rest', hcut, hrest', rfl⟩ := unclosed_iff.mp hunclosed
  obtain ⟨front', rest'', m, hss', rfl⟩ := h.exists_unterminated hcut hrest'
  obtain ⟨rfl, -⟩ := List.append_inj' (hss.symm.trans hss') rfl
  rw [byteSize_append] at hn
  omega

/-- There is an unterminated segment exactly if some marker is unclosed. -/
theorem unterminated_mem_iff {cs : List Char} {s : ℕ} :
    (∃ front rest, segments cs = front ++ [.unterminated rest] ∧
        byteSize (front.flatMap Segment.raw) = s) ↔ FirstUnclosed cs s := by
  constructor
  · rintro ⟨front, rest, hss, rfl⟩
    exact firstUnclosed_of_segments hss
  · rintro ⟨hunclosed, hfirst⟩
    obtain ⟨before, rest, hcut, hrest, rfl⟩ := unclosed_iff.mp hunclosed
    obtain ⟨front, rest', m, hss, rfl⟩ := (segmented_segments cs).exists_unterminated hcut hrest
    refine ⟨front, rest', hss, ?_⟩
    have hle := hfirst (byteSize (front.flatMap Segment.raw))
    have hat := (firstUnclosed_of_segments hss).1
    rw [byteSize_append] at hle ⊢
    by_contra hne
    exact hle (by omega) hat

/-- What a text says at a byte range, by the grammar: what a delimited range reads as, and that
the text is unterminated from the first unclosed marker on. -/
def Says (cs : List Char) (s e : ℕ) (r : Except Fault Name) : Prop :=
  Reads cs s e r ∨ r = .error .unterminated ∧ FirstUnclosed cs s ∧ e = byteSize cs

/-- The segments that say something are those of the grammar, at their byte ranges. -/
theorem segments_reading_iff {cs : List Char} {s e : ℕ} {r : Except Fault Name} :
    (∃ front x back, segments cs = front ++ x :: back ∧ x.reading? = some r ∧
        byteSize (front.flatMap Segment.raw) = s ∧ s + byteSize x.raw = e) ↔ Says cs s e r := by
  constructor
  · rintro ⟨front, x, back, hss, hx, rfl, rfl⟩
    cases x with
    | text chars => simp [Segment.reading?] at hx
    | delimited body =>
        left
        obtain ⟨hclean, after, hcut⟩ := delimited_mem_iff.mp ⟨front, back, hss, rfl⟩
        refine reads_iff.mpr ⟨_, body, after, hcut, hclean, Option.some.inj hx, rfl, ?_⟩
        simp [Segment.raw]
        omega
    | unterminated rest =>
        right
        refine ⟨(Option.some.inj hx).symm, firstUnclosed_of_segments hss, ?_⟩
        obtain ⟨rfl, -⟩ := (segmented_segments cs).of_unterminated hss
        conv_rhs => rw [← raw_segments cs, hss]
        simp
  · rintro (hreads | ⟨rfl, hunclosed, rfl⟩)
    · obtain ⟨before, body, after, hcut, hclean, rfl, rfl, rfl⟩ := reads_iff.mp hreads
      obtain ⟨front, back, hss, rfl⟩ := delimited_mem_iff.mpr ⟨hclean, after, hcut⟩
      refine ⟨front, .delimited body, back, hss, rfl, rfl, ?_⟩
      simp [Segment.raw]
      omega
    · obtain ⟨front, rest, hss, rfl⟩ := unterminated_mem_iff.mpr hunclosed
      refine ⟨front, .unterminated rest, [], hss, rfl, rfl, ?_⟩
      conv_rhs => rw [← raw_segments cs, hss]
      simp

/-! ### The segments from a marker on -/

section Markers

variable {before between body : List Char}

/-- The first opening marker of a text that begins with one. -/
theorem splitAtPair?_open (rest : List Char) :
    splitAtPair? '{' ('{' :: '{' :: rest) = some ([], rest) :=
  splitAtPair?_eq_some_iff.mpr ⟨rfl, not_hasPair_singleton _ _⟩

/-- A body without an opening marker is the innermost one. -/
theorem innermost_of_no_open (h : ¬ HasPair '{' ('{' :: body)) : innermost body = ([], body) := by
  obtain ⟨hcut, hbody⟩ := innermost_spec body
  obtain ⟨hskipped, hinner⟩ := last_pair_unique (a := []) hcut h hbody
  exact Prod.ext hskipped.symm hinner.symm

/-- What opens a range and all that follows it, cut at the marker of the innermost body. -/
theorem open_append_innermost (between rest : List Char) :
    '{' :: '{' :: (between ++ rest) =
      (innermost between).1 ++ '{' :: '{' :: ((innermost between).2 ++ rest) := by
  have hcut := congrArg (· ++ rest) (innermost_spec between).1
  simpa using hcut

/-- If a further marker opens, something comes before the innermost body. -/
theorem innermost_ne_nil (h : HasPair '{' ('{' :: between)) : (innermost between).1 ≠ [] := by
  intro hskipped
  obtain ⟨hcut, hbody⟩ := innermost_spec between
  rw [hskipped, List.nil_append, List.cons.injEq, List.cons.injEq] at hcut
  rw [← hcut.2.2] at hbody
  exact hbody h

/-- The innermost body up to the first closing marker is clean. -/
theorem cleanBody_innermost (h : ¬ HasPair '}' (between ++ ['}'])) :
    CleanBody (innermost between).2 := by
  refine ⟨(innermost_spec between).2, fun hpair => h (hasPair_close_open_iff.mp (hpair.mono ?_))⟩
  refine ⟨(innermost between).1 ++ ['{', '{'], [], ?_⟩
  rw [open_append_innermost between ['}']]
  simp

/-- The segments from an opening marker on, up to its first closing marker. -/
theorem segments_of_close (h : ¬ HasPair '}' (between ++ ['}'])) (after : List Char) :
    segments ('{' :: '{' :: (between ++ '}' :: '}' :: after)) =
      .text (innermost between).1 :: .delimited (innermost between).2 :: segments after := by
  have hclose : splitAtPair? '}' (between ++ '}' :: '}' :: after) = some (between, after) :=
    splitAtPair?_eq_some_iff.mpr ⟨rfl, h⟩
  rw [segments_of_range (splitAtPair?_open _) hclose, List.nil_append]

theorem segments_of_cleanBody (h : CleanBody body) (after : List Char) :
    segments ('{' :: '{' :: (body ++ '}' :: '}' :: after)) =
      .text [] :: .delimited body :: segments after := by
  rw [segments_of_close h.2, innermost_of_no_open h.1]

/-- Text in front of an opening marker makes the first segment longer. -/
theorem segments_open (hfirst : ¬ HasPair '{' (before ++ ['{'])) (rest : List Char) :
    ∃ lead ss, segments ('{' :: '{' :: rest) = .text lead :: ss ∧
      segments (before ++ '{' :: '{' :: rest) = .text (before ++ lead) :: ss := by
  have hopen : splitAtPair? '{' (before ++ '{' :: '{' :: rest) = some (before, rest) :=
    splitAtPair?_eq_some_iff.mpr ⟨rfl, hfirst⟩
  cases hclose : splitAtPair? '}' rest with
  | none =>
      refine ⟨[], [.unterminated rest], segments_of_no_close (splitAtPair?_open rest) hclose, ?_⟩
      rw [segments_of_no_close hopen hclose, List.append_nil]
  | some cut =>
      exact ⟨_, _, segments_of_range (splitAtPair?_open rest) hclose,
        segments_of_range hopen hclose⟩

end Markers

end LinkExpr
