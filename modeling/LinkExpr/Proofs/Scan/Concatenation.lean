import LinkExpr.Proofs.Scan.Acceptance

/-!
# Scanning Parts of a Text

A placeholder that is taken out of its text is still a placeholder, and the only token of what is
left (`scan_raw`). Put together, two texts keep their segments if no marker spans the seam between
them and nothing in the first one stays unterminated: the last text of the first one and the first
text of the second one become one segment, and all others are those of the two texts.

## Main results

* `exists_body_of_mem_placeholders`: what a placeholder is written as.
* `scan_raw`: a placeholder scanned alone.
* `segments_append`: the segments of two texts put together.
* `flatMap_segments_append`: what does not depend on where literal text is cut can be read off the
  two texts one after the other.
-/

namespace LinkExpr

open Text

/-! ### A placeholder alone -/

/-- A placeholder is written as a clean body between two markers. -/
theorem exists_body_of_mem_placeholders {source : String} {p : Placeholder}
    (h : p ∈ placeholders source) :
    ∃ body, CleanBody body ∧ readBody body = .ok p.name ∧
      p.raw = String.ofList ('{' :: '{' :: (body ++ ['}', '}'])) := by
  obtain ⟨x, hx, hreads, hraw⟩ := mem_placeholders_iff.mp h
  obtain ⟨front, back, hss, -⟩ := Span.mem_layout_iff.mp hx
  cases x with
  | text chars => simp [Segment.reading?] at hreads
  | unterminated rest => simp [Segment.reading?] at hreads
  | delimited body =>
      have hmem : .delimited body ∈ segments source.toList := by simp [hss]
      exact ⟨body, (segmented_segments _).cleanBody hmem, Option.some.inj hreads, hraw⟩

@[simp] theorem segments_nil : segments [] = [.text []] :=
  segments_of_no_open rfl

/-- A clean body between two markers is a text of one range. -/
theorem segments_delimited {body : List Char} (h : CleanBody body) :
    segments ('{' :: '{' :: (body ++ ['}', '}'])) = [.text [], .delimited body, .text []] := by
  rw [segments_of_cleanBody h, segments_nil]

/-- A placeholder in a text of its own. -/
def Placeholder.alone (p : Placeholder) : Placeholder :=
  { p with span := .covering .start p.raw.toList }

/-- **A placeholder scanned alone is that placeholder**, and nothing is malformed. -/
theorem scan_raw {source : String} {p : Placeholder} (h : p ∈ placeholders source) :
    scan p.raw = ⟨[.placeholder p.alone], []⟩ := by
  obtain ⟨body, hclean, hreads, hraw⟩ := exists_body_of_mem_placeholders h
  have hsegments : segments p.raw.toList = [.text [], .delimited body, .text []] := by
    rw [hraw, String.toList_ofList, segments_delimited hclean]
  have htext : (Segment.text []).name? = none := rfl
  have hname : (Segment.delimited body).name? = some p.name :=
    Segment.name?_eq_some_iff.mpr (congrArg some hreads)
  have hfault : (Segment.delimited body).fault? = none := by
    simp only [Segment.fault?, Segment.reading?, hreads]
  have hchars : (Segment.delimited body).raw = p.raw.toList := by
    rw [hraw, String.toList_ofList]
    rfl
  have hpieces : pieces p.raw = [.placeholder p.name p.raw.toList] := by
    have hraw : (Segment.text []).raw = [] := rfl
    rw [pieces, hsegments]
    simp [Piece.merge, Piece.ofLiteral, htext, hname, hchars, hraw]
  have hmalformed : (Span.layout Segment.raw .start [.text [], .delimited body, .text []]).filterMap
      Malformed.ofSegment? = [] := by
    have hnone : (Segment.text []).fault? = none := rfl
    simp [Malformed.ofSegment?, hfault, hnone]
  rw [scan, hpieces, hsegments, hmalformed]
  simp [Token.ofPiece, Placeholder.alone, Piece.raw]

/-! ### Two texts put together -/

section Concatenation

variable {a b : List Char}

/-- A pair of a text that is put together lies in one of its parts or across the seam. -/
theorem hasPair_append_iff {c : Char} :
    HasPair c (a ++ b) ↔
      HasPair c a ∨ HasPair c b ∨ a.getLast? = some c ∧ b.head? = some c := by
  induction a with
  | nil => simp [not_hasPair_nil]
  | cons x a ih =>
      cases a with
      | nil =>
          cases b with
          | nil => simp [not_hasPair_nil]
          | cons y b =>
              simp only [List.cons_append, List.nil_append, hasPair_cons_cons,
                not_hasPair_singleton, List.getLast?_singleton, List.head?_cons, Option.some.injEq,
                false_or]
              exact or_comm
      | cons y a =>
          simp only [List.cons_append] at ih ⊢
          rw [hasPair_cons_cons, hasPair_cons_cons, ih, List.getLast?_cons_cons, or_assoc]

/-- Two texts without a pair have none together if there is none across the seam. -/
theorem not_hasPair_append {c : Char} (ha : ¬ HasPair c a) (hb : ¬ HasPair c b)
    (hseam : a.getLast? = some c → b.head? ≠ some c) : ¬ HasPair c (a ++ b) := by
  rw [hasPair_append_iff]
  rintro (h | h | ⟨hlast, hhead⟩)
  · exact ha h
  · exact hb h
  · exact hseam hlast hhead

/-- The first cut of a text is the first cut of every longer one. -/
theorem splitAtPair?_append {c : Char} {before after : List Char}
    (h : splitAtPair? c a = some (before, after)) (b : List Char) :
    splitAtPair? c (a ++ b) = some (before, after ++ b) := by
  obtain ⟨rfl, hfirst⟩ := splitAtPair?_eq_some_iff.mp h
  exact splitAtPair?_eq_some_iff.mpr ⟨by simp, hfirst⟩

/-- Text without an opening marker makes the first segment of what follows longer. -/
theorem segments_text_append (hfree : ¬ HasPair '{' a)
    (hseam : a.getLast? = some '{' → b.head? ≠ some '{') :
    ∃ lead back, segments b = .text lead :: back ∧
      segments (a ++ b) = .text (a ++ lead) :: back := by
  cases hopen : splitAtPair? '{' b with
  | none =>
      have hb : ¬ HasPair '{' b := splitAtPair?_eq_none_iff.mp hopen
      have hab : ¬ HasPair '{' (a ++ b) := not_hasPair_append hfree hb hseam
      exact ⟨b, [], segments_of_no_open hopen,
        segments_of_no_open (splitAtPair?_eq_none_iff.mpr hab)⟩
  | some cut =>
      obtain ⟨before, rest⟩ := cut
      obtain ⟨rfl, hfirst⟩ := splitAtPair?_eq_some_iff.mp hopen
      have hlonger : ¬ HasPair '{' (a ++ before ++ ['{']) := by
        rw [List.append_assoc]
        refine not_hasPair_append hfree hfirst fun hlast hhead => hseam hlast ?_
        cases before with
        | nil => rfl
        | cons x before => exact hhead
      obtain ⟨lead, ss, hmarker, hb⟩ := segments_open hfirst rest
      obtain ⟨lead', ss', hmarker', hab⟩ := segments_open hlonger rest
      rw [hmarker] at hmarker'
      simp only [List.cons.injEq, Segment.text.injEq] at hmarker'
      obtain ⟨rfl, rfl⟩ := hmarker'
      rw [List.append_assoc, List.append_assoc] at hab
      exact ⟨before ++ lead, ss, hb, hab⟩

/-- **The segments of two texts put together** are those of the two texts, with one text segment
across the seam, if the first text is not unterminated and no marker spans the seam. -/
theorem segments_append (hclosed : ∀ rest, .unterminated rest ∉ segments a)
    (hseam : a.getLast? = some '{' → b.head? ≠ some '{') :
    ∃ front last lead back, segments a = front ++ [.text last] ∧ segments b = .text lead :: back ∧
      segments (a ++ b) = front ++ .text (last ++ lead) :: back := by
  induction a using segments.induct with
  | case1 a hopen =>
      obtain ⟨lead, back, hb, hab⟩ :=
        segments_text_append (splitAtPair?_eq_none_iff.mp hopen) hseam
      exact ⟨[], a, lead, back, segments_of_no_open hopen, hb, hab⟩
  | case2 a before inside hopen hclose =>
      refine absurd ?_ (hclosed inside)
      rw [segments_of_no_close hopen hclose]
      simp
  | case3 a before inside hopen between after hclose skipped body hinner ih =>
      have ha := segments_of_range hopen hclose
      have hab := segments_of_range (splitAtPair?_append hopen b) (splitAtPair?_append hclose b)
      obtain ⟨front, last, lead, back, hafter, hb, hafterb⟩ := ih
        (fun rest hmem => hclosed rest (by rw [ha]; simp [hmem]))
        (fun hlast => hseam (by
          obtain ⟨rfl, -⟩ := splitAtPair?_eq_some_iff.mp hopen
          obtain ⟨rfl, -⟩ := splitAtPair?_eq_some_iff.mp hclose
          simp [List.getLast?_append, List.getLast?_cons, hlast]))
      rw [hafter] at ha
      rw [hafterb] at hab
      exact ⟨_ :: _ :: front, last, lead, back, ha, hb, hab⟩

/-- **What does not depend on where literal text is cut** can be read off two texts one after the
other. -/
theorem flatMap_segments_append {β : Type} {f : Segment → List β}
    (hf : ∀ x y, f (.text (x ++ y)) = f (.text x) ++ f (.text y))
    (hclosed : ∀ rest, .unterminated rest ∉ segments a)
    (hseam : a.getLast? = some '{' → b.head? ≠ some '{') :
    (segments (a ++ b)).flatMap f = (segments a).flatMap f ++ (segments b).flatMap f := by
  obtain ⟨front, last, lead, back, ha, hb, hab⟩ := segments_append hclosed hseam
  rw [ha, hb, hab]
  simp [hf]

end Concatenation

end LinkExpr
