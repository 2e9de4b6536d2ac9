import LinkExpr.Proofs.Scan.Concatenation
import LinkExpr.Proofs.Scan.Placement
import LinkExpr.Proofs.Expansion.References

/-!
# Texts Inside Other Texts

A text that is put into another one is moved: what was at its beginning is now behind the text in
front. What a scan finds is moved with it (`movedBy`), and moving changes nothing but the place.

Whether a range is a placeholder depends on nothing outside of it. It is a way to cut the text
around two markers and a clean body, and such a cut stays one when text is added on either side.
So a placeholder survives in every surrounding. What is malformed may not: an opening marker
without a closing one takes in whatever follows. If there is none, and no marker spans the seam,
two texts that are put together keep all that was found in them.

## Main results

* `Position.movedBy_start_advance`, `Span.map_movedBy_layout`: a place of a text, and everything
  that is laid out along it, behind a text in front.
* `mem_placeholders_iff_cut`: the placeholders of a text are its cuts around a clean body.
* `movedBy_mem_placeholders`: a placeholder in any surrounding.
* `filterMap_layout_append`: what is found in two texts that are put together.
* `scanning_respects_concatenation`: both, for texts that are scanned.
-/

namespace LinkExpr

open Text

/-! ### Moving places -/

/-- A place of a text, once there is more text in front. Only on the first line of the text does
the last line in front of it count for the column. -/
def Position.movedBy (front : List Char) (p : Position) : Position where
  offset := byteSize front + p.offset
  line := front.count '\n' + p.line
  column := if p.line = 1 then (front.rtakeWhile (· ≠ '\n')).length + p.column else p.column

/-- Places keep their order. -/
theorem Position.Precedes.movedBy {p q : Position} (h : p.Precedes q) (front : List Char) :
    (p.movedBy front).Precedes (q.movedBy front) := by
  obtain ⟨hoffset, hline⟩ := h
  refine ⟨Nat.add_le_add_left hoffset _, ?_⟩
  rcases hline with hline | ⟨hline, hcolumn⟩
  · exact .inl (Nat.add_lt_add_left hline _)
  · refine .inr ⟨congrArg (front.count '\n' + ·) hline, ?_⟩
    simp only [Position.movedBy, hline]
    split
    · exact Nat.add_le_add_left hcolumn _
    · exact hcolumn

/-- Moving and going on by a character may change places, from the first line on. -/
theorem Position.movedBy_step (front : List Char) {p : Position} (h : 1 ≤ p.line) (c : Char) :
    (p.step c).movedBy front = (p.movedBy front).step c := by
  by_cases hc : c = '\n'
  · have hline : p.line ≠ 0 := by omega
    simp [Position.step, Position.movedBy, hc, hline, Nat.add_assoc]
  · by_cases hline : p.line = 1
    · simp [Position.step, Position.movedBy, hc, hline, Nat.add_assoc]
    · simp [Position.step, Position.movedBy, hc, hline, Nat.add_assoc]

/-- **A place of a text, behind a text in front**, is the place after both texts before it. -/
theorem Position.movedBy_start_advance (front before : List Char) :
    (start.advance before).movedBy front = start.advance (front ++ before) := by
  induction before using List.reverseRecOn with
  | nil =>
      have hoffset := Position.offset_advance .start front
      have hline := Position.line_advance .start front
      have hcolumn := Position.column_start_advance front
      rw [List.append_nil, Position.advance_nil, Position.movedBy]
      generalize Position.start.advance front = place at hoffset hline hcolumn ⊢
      obtain ⟨offset, line, column⟩ := place
      simp only [Position.offset_start, Position.line_start] at hoffset hline hcolumn ⊢
      simp [hoffset, hline, hcolumn, Position.start, Nat.add_comm]
  | append_singleton before c ih =>
      have hline : 1 ≤ (Position.start.advance before).line := by
        rw [Position.line_advance]
        exact Nat.le_add_right 1 _
      rw [← List.append_assoc, Position.advance_append, Position.advance_append _ (front ++ before)]
      exact (Position.movedBy_step front hline c).trans (congrArg (Position.step · c) ih)

/-- A span of a text, once there is more text in front. -/
def Span.movedBy (front : List Char) (span : Span) : Span :=
  ⟨span.start.movedBy front, span.stop.movedBy front, span.ordered.movedBy front⟩

theorem Span.movedBy_covering (front before part : List Char) :
    (covering (Position.start.advance before) part).movedBy front =
      covering (Position.start.advance (front ++ before)) part := by
  simp only [Span.movedBy, covering, ← Position.advance_append, Position.movedBy_start_advance,
    List.append_assoc]

/-- A layout behind a text in front. -/
theorem Span.map_movedBy_layout {α : Type} (raw : α → List Char) (front before : List Char)
    (xs : List α) :
    (layout raw (Position.start.advance before) xs).map (fun x => (x.1, x.2.movedBy front)) =
      layout raw (Position.start.advance (front ++ before)) xs := by
  induction xs generalizing before with
  | nil => rfl
  | cons x xs ih =>
      rw [layout_cons, List.map_cons, layout_cons, movedBy_covering, ← Position.advance_append,
        ← Position.advance_append, ih, List.append_assoc]

/-- A placeholder of a text, once there is more text in front. -/
def Placeholder.movedBy (front : String) (p : Placeholder) : Placeholder :=
  { p with span := p.span.movedBy front.toList }

/-- A malformed range of a text, once there is more text in front. -/
def Malformed.movedBy (front : String) (m : Malformed) : Malformed :=
  { m with span := m.span.movedBy front.toList }

/-! ### Placeholders in a surrounding -/

/-- **The placeholders of a text are its cuts around a clean body** that reads as a name. -/
theorem mem_placeholders_iff_cut {source : String} {p : Placeholder} :
    p ∈ placeholders source ↔ ∃ before body after,
      source.toList = before ++ '{' :: '{' :: (body ++ '}' :: '}' :: after) ∧ CleanBody body ∧
        readBody body = .ok p.name ∧ p.raw.toList = '{' :: '{' :: (body ++ ['}', '}']) ∧
          p.span = .covering (Position.start.advance before) p.raw.toList := by
  constructor
  · intro h
    obtain ⟨x, hx, hreads, hraw⟩ := mem_placeholders_iff.mp h
    obtain ⟨front, back, hss, hspan⟩ := Span.mem_layout_iff.mp hx
    cases x with
    | text chars | unterminated rest => simp [Segment.reading?] at hreads
    | delimited body =>
        obtain ⟨hclean, after, hcut⟩ := delimited_mem_iff.mp ⟨front, back, hss, rfl⟩
        refine ⟨_, body, after, hcut, hclean, Option.some.inj hreads, ?_, ?_⟩
        · rw [hraw, String.toList_ofList]
          rfl
        · rw [hspan, hraw, String.toList_ofList]
  · rintro ⟨before, body, after, hcut, hclean, hreads, hraw, hspan⟩
    obtain ⟨front, back, hss, rfl⟩ := delimited_mem_iff.mpr ⟨hclean, after, hcut⟩
    refine mem_placeholders_iff.mpr ⟨.delimited body, ?_, congrArg some hreads, ?_⟩
    · refine Span.mem_layout_iff.mpr ⟨front, back, hss, ?_⟩
      rw [hspan, hraw]
      rfl
    · rw [Segment.raw, ← hraw, String.ofList_toList]

/-- **A placeholder stays a placeholder in every surrounding.** -/
theorem movedBy_mem_placeholders {source : String} {p : Placeholder} (h : p ∈ placeholders source)
    (front back : String) : p.movedBy front ∈ placeholders (front ++ source ++ back) := by
  obtain ⟨before, body, after, hcut, hclean, hreads, hraw, hspan⟩ := mem_placeholders_iff_cut.mp h
  refine mem_placeholders_iff_cut.mpr
    ⟨front.toList ++ before, body, after ++ back.toList, ?_, hclean, hreads, hraw, ?_⟩
  · rw [String.toList_append, String.toList_append, hcut]
    simp
  · rw [Placeholder.movedBy, hspan, Span.movedBy_covering]

/-- A link stays a link in every surrounding. -/
theorem isLink_surrounded {source : String} (h : isLink source = true) (front back : String) :
    isLink (front ++ source ++ back) = true := by
  obtain ⟨name, p, hp, rfl⟩ := isLink_iff.mp h
  exact isLink_iff.mpr ⟨p.name, p.movedBy front, movedBy_mem_placeholders hp front back, rfl⟩

/-! ### Two texts put together -/

section Concatenation

variable {a b : List Char}

/-- **What is found in two texts that are put together** is what is found in the first one, and,
moved, what is found in the second one. -/
theorem filterMap_layout_append {β : Type} {find : Segment × Span → Option β} {move : β → β}
    (htext : ∀ chars span, find (.text chars, span) = none)
    (hmove : ∀ x span, find (x, span.movedBy a) = (find (x, span)).map move)
    (hclosed : ∀ rest, .unterminated rest ∉ segments a)
    (hseam : a.getLast? = some '{' → b.head? ≠ some '{') :
    (Span.layout Segment.raw .start (segments (a ++ b))).filterMap find =
      (Span.layout Segment.raw .start (segments a)).filterMap find ++
        ((Span.layout Segment.raw .start (segments b)).filterMap find).map move := by
  obtain ⟨front, last, lead, back, ha, hb, hab⟩ := segments_append hclosed hseam
  have hfront : front.flatMap Segment.raw ++ last = a := by
    rw [← raw_segments a, ha]
    simp [Segment.raw]
  have hmoved : ∀ xs : List (Segment × Span),
      (xs.map fun x => (x.1, x.2.movedBy a)).filterMap find = (xs.filterMap find).map move := by
    intro xs
    rw [List.filterMap_map, List.map_filterMap]
    exact List.filterMap_congr fun x _ => hmove x.1 x.2
  have hback : (Span.layout Segment.raw (Position.start.advance (a ++ lead)) back).filterMap find =
      ((Span.layout Segment.raw (Position.start.advance lead) back).filterMap find).map move := by
    rw [← Span.map_movedBy_layout, hmoved]
  have hseamed : (Position.start.advance (front.flatMap Segment.raw)).advance (last ++ lead) =
      Position.start.advance (a ++ lead) := by
    rw [← Position.advance_append, ← List.append_assoc, hfront]
  rw [ha, hb, hab]
  simp only [Span.layout_append, Span.layout_cons, Span.layout_nil, List.filterMap_append,
    List.filterMap_cons, List.filterMap_nil, htext, Segment.raw, List.append_nil, hseamed, hback]

end Concatenation

theorem Placeholder.ofSegment?_movedBy (front : String) (x : Segment) (span : Span) :
    ofSegment? (x, span.movedBy front.toList) = (ofSegment? (x, span)).map (movedBy front) := by
  rw [ofSegment?, ofSegment?, Option.map_map]
  rfl

theorem Malformed.ofSegment?_movedBy (front : String) (x : Segment) (span : Span) :
    ofSegment? (x, span.movedBy front.toList) = (ofSegment? (x, span)).map (movedBy front) := by
  rw [ofSegment?, ofSegment?, Option.map_map]
  rfl

/-- A text without an unterminated report has no unterminated segment. -/
theorem unterminated_not_mem_segments {source : String}
    (h : ∀ m ∈ (scan source).malformed, m.fault ≠ .unterminated) (rest : List Char) :
    .unterminated rest ∉ segments source.toList := by
  intro hmem
  obtain ⟨front, back, hss⟩ := List.append_of_mem hmem
  have hunclosed := (firstUnclosed_of_segments hss).1
  obtain ⟨m, hm, hfault⟩ := exists_unterminated_iff.mpr ⟨_, hunclosed⟩
  exact h m hm hfault

/-- **Scanning respects concatenation.** A placeholder of a text is found in every text around it,
so that a link stays a link. If nothing in a text is unterminated and no marker spans the seam to
the text behind it, the placeholders of both texts together are those of the first one and then,
moved, those of the second one, and so are the malformed ranges with what is wrong with them. -/
theorem scanning_respects_concatenation :
    (∀ front source back : String,
      (∀ p ∈ placeholders source, p.movedBy front ∈ placeholders (front ++ source ++ back)) ∧
      (isLink source = true → isLink (front ++ source ++ back) = true)) ∧
    (∀ a b : String, (∀ m ∈ (scan a).malformed, m.fault ≠ .unterminated) →
      ¬ (a.toList.getLast? = some '{' ∧ b.toList.head? = some '{') →
        placeholders (a ++ b) = placeholders a ++ (placeholders b).map (·.movedBy a) ∧
        (scan (a ++ b)).malformed =
          (scan a).malformed ++ (scan b).malformed.map (·.movedBy a)) := by
  refine ⟨fun front source back => ⟨?_, ?_⟩, ?_⟩
  · intro p hp
    exact movedBy_mem_placeholders hp front back
  · intro h
    exact isLink_surrounded h front back
  · intro a b hunterminated hbraces
    have hclosed := unterminated_not_mem_segments hunterminated
    have hseam : a.toList.getLast? = some '{' → b.toList.head? ≠ some '{' :=
      fun hlast hhead => hbraces ⟨hlast, hhead⟩
    constructor
    · rw [placeholders_eq, placeholders_eq, placeholders_eq, String.toList_append]
      exact filterMap_layout_append (fun _ _ => rfl) (Placeholder.ofSegment?_movedBy a) hclosed
        hseam
    · rw [scan, scan, scan, String.toList_append]
      exact filterMap_layout_append (fun _ _ => rfl) (Malformed.ofSegment?_movedBy a) hclosed hseam

/-- Behind an empty range and a line break, a placeholder is found on its second line. -/
theorem placeholder_behind_malformed_text :
    placeholders ("\x7b\x7b\x7d\x7d\n\x7b" ++ "x\x7b\x7bA:k\x7d\x7d") =
        placeholders "\x7b\x7b\x7d\x7d\n\x7b" ++
          (placeholders "x\x7b\x7bA:k\x7d\x7d").map
            (·.movedBy "\x7b\x7b\x7d\x7d\n\x7b") ∧
      (scan ("\x7b\x7b\x7d\x7d\n\x7b" ++ "x\x7b\x7bA:k\x7d\x7d")).malformed =
        (scan "\x7b\x7b\x7d\x7d\n\x7b").malformed ++
          (scan "x\x7b\x7bA:k\x7d\x7d").malformed.map
            (·.movedBy "\x7b\x7b\x7d\x7d\n\x7b") :=
  scanning_respects_concatenation.2 _ _ (by decide +kernel) (by decide +kernel)

end LinkExpr
