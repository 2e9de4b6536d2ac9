import LinkExpr.Proofs.Excerpt.Lines
import LinkExpr.Proofs.Expansion.Levels
import Mathlib.Data.List.TakeDrop

/-!
# Marks

A scan counts lines and columns while it reads on, and an excerpt counts them again: it searches for
the newlines on both sides of a place. The two counts agree for whatever a span marks, since both
are about the text before it. Only tabs are counted twice, as one character by a scan and as four
columns by an excerpt.

The mark of an excerpt runs below the first line of what the span marks. It has one dash for each
character there, while the line above it is shown with its tabs expanded. So the mark is exact if
there is no tab in it, and ends three columns early for every tab that there is.

## Main results

* `Span.Marks.exists_lineAround`: the line around what a span marks, and its excerpt.
* `positions_agree_with_excerpts`: what a scan and an excerpt say about a token or a report.
* `marks_end_early_by_tabs`: which characters stand above a mark.
-/

namespace LinkExpr

open Text

/-! ### First lines -/

namespace Text

/-- A lower cut behind the end of a text leaves nothing. -/
theorem splitBelow_of_le {cs : List Char} {n : ℕ} (h : byteSize cs ≤ n) :
    splitBelow cs n = (cs, []) := by
  induction cs generalizing n with
  | nil => rfl
  | cons c cs ih =>
      rw [byteSize_cons] at h
      rw [splitBelow, if_pos (by omega), ih (by omega)]

/-- There is one way to cut a text at an offset. -/
theorem append_inj_of_byteSize {a b c d : List Char} (h : a ++ b = c ++ d)
    (hsize : byteSize a = byteSize c) : a = c ∧ b = d := by
  have ha := splitAtOffset?_byteSize a b
  rw [h, hsize, splitAtOffset?_byteSize] at ha
  obtain ⟨hc, hd⟩ := Prod.mk.inj (Option.some.inj ha)
  exact ⟨hc.symm, hd.symm⟩

end Text

namespace Excerpt

variable {cs raw after : List Char}

theorem firstLine_of_not_mem (h : '\n' ∉ cs) : firstLine cs = cs := by
  have hfirst : firstLine (cs ++ []) = cs := firstLine_append h (.inl rfl)
  rwa [List.append_nil] at hfirst

/-- Text behind a newline does not change the first line. -/
theorem firstLine_append_of_mem (h : '\n' ∈ raw) (after : List Char) :
    firstLine (raw ++ after) = firstLine raw := by
  rw [firstLine, firstLine, List.takeWhile_append]
  refine if_neg fun hlength => ?_
  have hall : raw.takeWhile (· ≠ '\n') = raw :=
    (List.takeWhile_prefix _).eq_of_length hlength
  simpa using List.takeWhile_eq_self_iff.mp hall _ h

theorem byteSize_firstLine_le (cs : List Char) : byteSize (firstLine cs) ≤ byteSize cs := by
  conv_rhs => rw [← List.takeWhile_append_dropWhile (p := (· ≠ '\n')) (l := cs), byteSize_append]
  exact Nat.le_add_right _ _

/-- **A highlighted text is cut at the end of its first line**, whatever comes after it. -/
theorem splitBelow_firstLine (raw after : List Char) :
    (splitBelow (firstLine (raw ++ after)) (byteSize raw)).1 = firstLine raw := by
  by_cases hnewline : '\n' ∈ raw
  · rw [firstLine_append_of_mem hnewline, splitBelow_of_le (byteSize_firstLine_le raw)]
  · rw [firstLine_append_of_not_mem hnewline, splitBelow_byteSize,
      firstLine_of_not_mem hnewline]

/-- A text takes up as many columns as it has characters exactly if it has no tab. -/
theorem take_length_expandTabs_iff :
    (expandTabs cs).take cs.length = expandTabs cs ↔ '\t' ∉ cs := by
  rw [List.take_eq_self_iff, length_expandTabs, ← List.count_eq_zero]
  omega

end Excerpt

/-! ### The line around a span -/

/-- A line cut is at the beginning of what a span marks: the position there counts what the cut
says, and the excerpt of the span shows the line. -/
structure Span.LineAround (span : Span) (source raw : String) (cut : LineCut source.toList) :
    Prop where
  offset : span.start.offset = byteSize cut.before
  line : span.start.line = 1 + cut.before.count '\n'
  column : span.start.column = 1 + cut.left.length
  excerpt : Excerpt.ofSpan source span = cut.excerpt (some (byteSize raw.toList))
  highlight : (splitBelow cut.right (byteSize raw.toList)).1 = Excerpt.firstLine raw.toList

/-- **There is a line around everything that a span marks.** -/
theorem Span.Marks.exists_lineAround {span : Span} {source raw : String}
    (h : span.Marks source raw) (hraw : raw ≠ "") :
    ∃ cut : LineCut source.toList, span.LineAround source raw cut := by
  obtain ⟨part, hslice, rfl⟩ := Option.map_eq_some_iff.mp h.slice
  obtain ⟨before, after, hsource, hstart, hstop⟩ := slice?_eq_some_iff.mp hslice
  obtain ⟨before', after', hsource', hoffset, hline, hcolumn⟩ := h.start
  rw [List.append_assoc] at hsource
  -- the position of the start is where the marked part begins
  obtain ⟨rfl, -⟩ := append_inj_of_byteSize (hsource.symm.trans hsource') (by omega)
  obtain ⟨cut, rfl, hafter⟩ := LineCut.exists_of_append hsource.symm
  have hright : cut.right = Excerpt.firstLine (part ++ after) := by
    rw [← hafter, cut.firstLine_after]
  have hpart : part ≠ [] := fun hnil => hraw (by rw [hnil])
  have hpos : byteSize part ≠ 0 := mt byteSize_eq_zero_iff.mp hpart
  have hsize : max 1 span.size = byteSize part := by
    rw [Span.size]
    omega
  have hcut : splitBelow source.toList span.start.offset = (cut.before, cut.after) := by
    have hsplit := splitBelow_byteSize cut.before cut.after
    rwa [cut.before_append_after, hstart] at hsplit
  refine ⟨cut, hoffset, hline, ?_, ?_, ?_⟩
  · rw [hcolumn, ← cut.lastLine_before]
    rfl
  · rw [Excerpt.ofSpan, hsize, cut.make_eq hcut, String.toList_ofList]
  · rw [hright, String.toList_ofList, Excerpt.splitBelow_firstLine]

/-- The excerpt of a span says the same as the span. -/
structure Span.Agrees (span : Span) (source raw : String) (e : Excerpt) : Prop where
  offset : e.offset = span.start.offset
  line : e.line = span.start.line
  /-- Every tab between the beginning of the line and the span takes up three more columns. -/
  column : ∃ cut : LineCut source.toList, byteSize cut.before = span.start.offset ∧
    e.column = span.start.column + 3 * cut.left.count '\t'
  /-- The first line is highlighted, and at least one character. -/
  length : e.length = max 1 (Excerpt.firstLine raw.toList).length

/-- What a span says of the line around it is what its excerpt says. -/
theorem Span.LineAround.agrees {span : Span} {source raw : String} {cut : LineCut source.toList}
    (h : span.LineAround source raw cut) : span.Agrees source raw (.ofSpan source span) := by
  rw [h.excerpt]
  refine ⟨h.offset.symm, ?_, ⟨cut, h.offset.symm, ?_⟩, ?_⟩
  · rw [h.line, Nat.add_comm]
    rfl
  · show (Excerpt.expandTabs cut.left).length + 1 = _
    rw [h.column, Excerpt.length_expandTabs]
    omega
  · show max 1 (splitBelow cut.right (byteSize raw.toList)).1.length = _
    rw [h.highlight]

/-- There is a line around every token. -/
theorem exists_lineAround_of_mem_tokens {source : String} {token : Token}
    (h : token ∈ (scan source).tokens) :
    ∃ cut : LineCut source.toList, token.span.LineAround source token.raw cut :=
  ((scan_exact source).tokens_marked token h).exists_lineAround
    ((scan_exact source).nonempty token h)

/-- What is read as a name or a fault begins with a brace. -/
theorem Segment.exists_raw_eq_cons {x : Segment} {result : Except Fault Name}
    (h : x.reading? = some result) : ∃ rest, x.raw = '{' :: rest := by
  cases x with
  | text chars => cases h
  | delimited body => exact ⟨_, rfl⟩
  | unterminated rest => exact ⟨_, rfl⟩

theorem exists_raw_of_mem_malformed {source : String} {m : Malformed}
    (h : m ∈ (scan source).malformed) : ∃ rest, m.raw.toList = '{' :: rest := by
  obtain ⟨x, -, hreads, hraw⟩ := mem_malformed_iff.mp h
  rw [hraw, String.toList_ofList]
  exact Segment.exists_raw_eq_cons hreads

theorem exists_raw_of_mem_placeholders {source : String} {p : Placeholder}
    (h : p ∈ placeholders source) : ∃ rest, p.raw.toList = '{' :: rest := by
  obtain ⟨x, -, hreads, hraw⟩ := mem_placeholders_iff.mp h
  rw [hraw, String.toList_ofList]
  exact Segment.exists_raw_eq_cons hreads

/-- There is a line around everything malformed. -/
theorem exists_lineAround_of_mem_malformed {source : String} {m : Malformed}
    (h : m ∈ (scan source).malformed) :
    ∃ cut : LineCut source.toList, m.span.LineAround source m.raw cut := by
  refine ((scan_exact source).malformed_marked m h).exists_lineAround fun hempty => ?_
  obtain ⟨rest, hraw⟩ := exists_raw_of_mem_malformed h
  rw [hempty] at hraw
  cases hraw

/-- **Positions agree with excerpts.** For every token of a text and everything malformed in it, the
excerpt that is found again for its span has the offset and the line of the span, its column but for
the tabs before it, and the length of its first line. -/
theorem positions_agree_with_excerpts (source : String) :
    (∀ token ∈ (scan source).tokens,
      token.span.Agrees source token.raw (.ofSpan source token.span)) ∧
    (∀ m ∈ (scan source).malformed, ∃ e, Reportable.excerpt? m source = some e ∧
      e = .ofSpan source m.span ∧ m.span.Agrees source m.raw e) := by
  constructor
  · intro token htoken
    obtain ⟨cut, h⟩ := exists_lineAround_of_mem_tokens htoken
    exact h.agrees
  · intro m hm
    obtain ⟨cut, h⟩ := exists_lineAround_of_mem_malformed hm
    exact ⟨_, rfl, rfl, h.agrees⟩

/-- A range that runs over two lines, with a tab before it and one in it. -/
theorem range_over_two_lines_is_found_again :
    ∃ m ∈ (scan "a\té\n\tb\t\x7b\x7bx\ty\nz\x7d\x7d").malformed,
      m.span.start = ⟨8, 2, 4⟩ ∧ m.raw = "\x7b\x7bx\ty\nz\x7d\x7d" ∧
      ∃ e, Reportable.excerpt? m "a\té\n\tb\t\x7b\x7bx\ty\nz\x7d\x7d" = some e ∧
        e.offset = 8 ∧ e.line = 2 ∧ e.length = 5 := by
  obtain ⟨m, hm, hstart, hraw⟩ :
      ∃ m ∈ (scan "a\té\n\tb\t\x7b\x7bx\ty\nz\x7d\x7d").malformed,
        m.span.start = ⟨8, 2, 4⟩ ∧ m.raw = "\x7b\x7bx\ty\nz\x7d\x7d" := by
    decide +kernel
  obtain ⟨e, hexcerpt, -, hagrees⟩ := (positions_agree_with_excerpts _).2 m hm
  refine ⟨m, hm, hstart, hraw, e, hexcerpt, ?_, ?_, ?_⟩
  · rw [hagrees.offset, hstart]
  · rw [hagrees.line, hstart]
  · rw [hagrees.length, hraw]
    decide +kernel

/-! ### The characters above a mark -/

/-- The characters of the line that stand above the mark. -/
def Excerpt.marked (e : Excerpt) : List Char :=
  (e.lineText.toList.drop (e.column - 1)).take e.length

/-- What the mark of an excerpt says about a text: it is below its first line, and as long as that
is in characters. -/
structure Excerpt.Underlines (e : Excerpt) (raw : String) : Prop where
  /-- As many columns are marked as the first line has characters. -/
  marked_eq : e.marked = (expandTabs (firstLine raw.toList)).take (firstLine raw.toList).length
  /-- For each tab, three columns are not marked. -/
  length_add : e.marked.length + 3 * (firstLine raw.toList).count '\t' =
    (expandTabs (firstLine raw.toList)).length
  /-- The mark is exact if there is no tab, and only then. -/
  exact_iff : e.marked = expandTabs (firstLine raw.toList) ↔ '\t' ∉ firstLine raw.toList

/-- **A mark is as long as the first line** of what its span marks, in characters. -/
theorem Span.LineAround.underlines {span : Span} {source raw : String}
    {cut : LineCut source.toList} (h : span.LineAround source raw cut)
    (hraw : ∃ rest, raw.toList = '{' :: rest) :
    (Excerpt.ofSpan source span).Underlines raw := by
  have hfirst : Excerpt.firstLine raw.toList ≠ [] := by
    obtain ⟨rest, hrest⟩ := hraw
    rw [hrest, Excerpt.firstLine]
    exact List.cons_ne_nil _ _
  have hpos : 0 < (Excerpt.firstLine raw.toList).length := List.length_pos_iff.mpr hfirst
  have hlong := LineCut.length_le_length_expandTabs (Excerpt.firstLine raw.toList)
  have hright := splitBelow_append cut.right (byteSize raw.toList)
  rw [h.highlight] at hright
  have hmarked : (Excerpt.ofSpan source span).marked =
      (Excerpt.expandTabs (Excerpt.firstLine raw.toList)).take
        (Excerpt.firstLine raw.toList).length := by
    rw [Excerpt.marked, h.agrees.length, h.excerpt, (cut.shows_excerpt _).behind,
      Nat.max_eq_right hpos, ← hright, Excerpt.expandTabs_append,
      List.take_append_of_le_length hlong]
  refine ⟨hmarked, ?_, ?_⟩
  · rw [hmarked, List.length_take_of_le hlong, Excerpt.length_expandTabs]
  · rw [hmarked]
    exact Excerpt.take_length_expandTabs_iff

/-- What is left without an origin is a placeholder of the text itself. -/
theorem exists_placeholder_of_via_eq_none {lookup : Name → Resolution} {limit : ℕ}
    {source : String} {u : Unresolved} (h : u ∈ (expandToDepth lookup limit source).unresolved)
    (hvia : u.via = none) : ∃ p ∈ placeholders source, u.span = p.span ∧ u.raw = p.raw := by
  obtain ⟨names, text, hu⟩ := mem_unresolved_iff.mp h
  obtain ⟨p, hp, heq⟩ := hu.placed
  have hnames : names.head? = none := by
    rw [← hvia, heq]
    rfl
  obtain rfl := List.head?_eq_none_iff.mp hnames
  obtain ⟨⟩ := hu.chain
  exact ⟨p, hp, congrArg Unresolved.span heq, congrArg Unresolved.raw heq⟩

/-- **Marks end early by three columns for every tab.** What is malformed in an expression, and what
is left of the expression itself, has an excerpt whose mark runs below the first line of it. As many
columns are marked as the first line has characters, and so the mark is exact if there is no tab in
the first line, and only then. -/
theorem marks_end_early_by_tabs (expression : String) :
    (∀ m ∈ (scan expression).malformed, ∃ e,
      Reportable.excerpt? m expression = some e ∧ e.Underlines m.raw) ∧
    (∀ (c : Context) (options : ExpansionOptions),
      ∀ u ∈ (c.expand expression options).unresolved, u.via = none → ∃ e,
        Reportable.excerpt? u expression = some e ∧ e.Underlines u.raw) := by
  constructor
  · intro m hm
    obtain ⟨cut, h⟩ := exists_lineAround_of_mem_malformed hm
    exact ⟨_, rfl, h.underlines (exists_raw_of_mem_malformed hm)⟩
  · intro c options u hu hvia
    obtain ⟨p, hp, hspan, hraw⟩ := exists_placeholder_of_via_eq_none hu hvia
    obtain ⟨cut, h⟩ := exists_lineAround_of_mem_tokens (placeholder_mem_tokens_iff.mpr hp)
    have hexcerpt : Reportable.excerpt? u expression = some (.ofSpan expression u.span) := by
      simp [Reportable.excerpt?, hvia]
    refine ⟨_, hexcerpt, ?_⟩
    rw [hspan, hraw]
    exact Span.LineAround.underlines h (exists_raw_of_mem_placeholders hp)

/-- A mark ends before the last three columns of malformed text with a tab in it. -/
theorem mark_misses_columns_behind_tab :
    ∃ m ∈ (scan "\x7b\x7ba\tb\x7d\x7d").malformed, ∃ e,
      Reportable.excerpt? m "\x7b\x7ba\tb\x7d\x7d" = some e ∧
      e.marked ≠ Excerpt.expandTabs (Excerpt.firstLine m.raw.toList) ∧
      e.marked = "\x7b\x7ba    ".toList ∧
      Excerpt.expandTabs (Excerpt.firstLine m.raw.toList) = "\x7b\x7ba    b\x7d\x7d".toList := by
  decide +kernel

/-- Without a namespace that is known, a placeholder with a tab in its key is left. -/
theorem mark_of_placeholder_misses_columns :
    ∃ u ∈ ((⟨.ofPlain [], []⟩ : Context).expand "\x7b\x7bA:x\ty\nz\x7d\x7d" ⟨1⟩).unresolved,
      u.via = none ∧ ∃ e, Reportable.excerpt? u "\x7b\x7bA:x\ty\nz\x7d\x7d" = some e ∧
        e.marked.length = 7 := by
  obtain ⟨u, hu, hvia, hraw⟩ :
      ∃ u ∈ ((⟨.ofPlain [], []⟩ : Context).expand "\x7b\x7bA:x\ty\nz\x7d\x7d" ⟨1⟩).unresolved,
        u.via = none ∧ u.raw = "\x7b\x7bA:x\ty\nz\x7d\x7d" := by
    decide +kernel
  obtain ⟨e, hexcerpt, hunderlines⟩ := (marks_end_early_by_tabs _).2 _ _ u hu hvia
  refine ⟨u, hu, hvia, e, hexcerpt, ?_⟩
  have hlength := hunderlines.length_add
  rw [hraw] at hlength
  have hcount : (Excerpt.firstLine "\x7b\x7bA:x\ty\nz\x7d\x7d".toList).count '\t' = 1 := by
    decide +kernel
  have hcolumns : (Excerpt.expandTabs
      (Excerpt.firstLine "\x7b\x7bA:x\ty\nz\x7d\x7d".toList)).length = 10 := by
    decide +kernel
  omega

end LinkExpr
