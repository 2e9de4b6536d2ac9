import LinkExpr.Proofs.Scan.Ranges

/-!
# Scanning Accepts the Grammar

A scan lays the segments of a text out with `Span.layout`, so its reports are the segments that say
something, each at its byte range. Merging the literal text moves no placeholder, and so the
placeholders among the tokens are the segments that read as names.

## Main results

* `mem_layout_segments_iff`: what the placed segments say is what the grammar says.
* `exists_placeholder_iff`, `exists_malformed_iff`: what is found at a byte range.
* `scan_accepts_exactly_grammar`: the placeholders and the malformed ranges of a scan are, in
  increasing order, those of the grammar.
-/

namespace LinkExpr

open Text

/-! ### The reports of a scan -/

/-- A segment that is a placeholder, in its place. -/
def Placeholder.ofSegment? : Segment × Span → Option Placeholder
  | (s, span) => s.name?.map fun name => ⟨name, String.ofList s.raw, span⟩

/-- Merging the literal text does not move the placeholders. -/
theorem filterMap_placeholder_merge (p : Position) (pending : List Char) (ss : List Segment) :
    ((Span.layout Piece.raw p (Piece.merge pending ss)).map Token.ofPiece).filterMap
        Token.placeholder? =
      (Span.layout Segment.raw (p.advance pending) ss).filterMap Placeholder.ofSegment? := by
  have hpending : ∀ (p : Position) (chars : List Char),
      ((Span.layout Piece.raw p (Piece.ofLiteral chars)).map Token.ofPiece).filterMap
        Token.placeholder? = [] := by
    intro p chars
    rw [Piece.ofLiteral]
    split <;> rfl
  induction ss generalizing p pending with
  | nil => exact hpending p pending
  | cons s rest ih =>
      rw [Piece.merge]
      cases hname : s.name? with
      | none =>
          simp only [Span.layout_cons]
          rw [ih, List.filterMap_cons]
          simp [Placeholder.ofSegment?, hname]
      | some name =>
          simp only [Span.layout_append, List.map_append, List.filterMap_append, hpending,
            Piece.raw_ofLiteral, Span.layout_cons, List.map_cons, List.filterMap_cons,
            List.nil_append]
          rw [ih]
          simp [Token.ofPiece, Token.placeholder?, Placeholder.ofSegment?, hname, Piece.raw]

/-- The placeholders of a text are its segments that are placeholders. -/
theorem placeholders_eq (source : String) :
    placeholders source =
      (Span.layout Segment.raw .start (segments source.toList)).filterMap
        Placeholder.ofSegment? :=
  filterMap_placeholder_merge .start [] (segments source.toList)

/-- The names of the placeholders are those of the segments, in their order. -/
theorem map_name_placeholders (source : String) :
    (placeholders source).map Placeholder.name =
      (segments source.toList).filterMap Segment.name? := by
  rw [placeholders_eq, List.map_filterMap]
  conv_rhs => rw [← Span.map_fst_layout Segment.raw .start (segments source.toList)]
  rw [List.filterMap_map]
  refine List.filterMap_congr fun x _ => ?_
  rw [Placeholder.ofSegment?, Option.map_map]
  exact Option.map_id'

/-- A span takes up a byte range. -/
def Span.Occupies (span : Span) (s e : ℕ) : Prop :=
  span.start.offset = s ∧ span.stop.offset = e

theorem Segment.name?_eq_some_iff {x : Segment} {name : Name} :
    x.name? = some name ↔ x.reading? = some (.ok name) := by
  rw [Segment.name?]
  split <;> simp_all

theorem Segment.fault?_eq_some_iff {x : Segment} {fault : Fault} :
    x.fault? = some fault ↔ x.reading? = some (.error fault) := by
  rw [Segment.fault?]
  split <;> simp_all

/-- A segment that says something is not empty. -/
theorem Segment.raw_ne_nil {x : Segment} {r : Except Fault Name} (h : x.reading? = some r) :
    x.raw ≠ [] := by
  cases x with
  | text chars => simp [Segment.reading?] at h
  | delimited body | unterminated body => exact List.cons_ne_nil _ _

theorem Segment.byteSize_raw_pos {x : Segment} {r : Except Fault Name}
    (h : x.reading? = some r) : 0 < byteSize x.raw :=
  Nat.pos_of_ne_zero fun hzero => Segment.raw_ne_nil h (byteSize_eq_zero_iff.mp hzero)

/-- What the placed segments of a text say is what the grammar says. -/
theorem mem_layout_segments_iff {cs : List Char} {s e : ℕ} {r : Except Fault Name} :
    (∃ x span, (x, span) ∈ Span.layout Segment.raw .start (segments cs) ∧
        x.reading? = some r ∧ span.Occupies s e) ↔ Says cs s e r := by
  rw [← segments_reading_iff]
  constructor
  · rintro ⟨x, span, hmem, hx, rfl, rfl⟩
    obtain ⟨front, back, hss, rfl⟩ := Span.mem_layout_iff.mp hmem
    exact ⟨front, x, back, hss, hx, by simp, by simp⟩
  · rintro ⟨front, x, back, hss, hx, rfl, rfl⟩
    exact ⟨x, _, Span.mem_layout_iff.mpr ⟨front, back, hss, rfl⟩, hx, by simp, by simp⟩

/-- The spans of the segments that say something are in strictly increasing order. -/
theorem pairwise_layout_segments (p : Position) (ss : List Segment) :
    (Span.layout Segment.raw p ss).Pairwise fun x y => x.1.reading?.isSome →
      x.2.start.offset < y.2.start.offset ∧ x.2.stop.offset ≤ y.2.start.offset := by
  refine (Span.pairwise_layout Segment.raw p ss).imp_of_mem ?_
  rintro ⟨x, span⟩ ⟨y, span'⟩ hx - hle hsome
  obtain ⟨r, hr⟩ := Option.isSome_iff_exists.mp hsome
  obtain ⟨front, back, -, rfl⟩ := Span.mem_layout_iff.mp hx
  have hpos : 0 < byteSize x.raw := Segment.byteSize_raw_pos hr
  simp only [Span.start_covering, Span.stop_covering, Position.offset_advance] at hle ⊢
  omega

theorem mem_placeholders_iff {source : String} {p : Placeholder} :
    p ∈ placeholders source ↔ ∃ x, (x, p.span) ∈ Span.layout Segment.raw .start
      (segments source.toList) ∧ x.reading? = some (.ok p.name) ∧ p.raw = String.ofList x.raw := by
  rw [placeholders_eq, List.mem_filterMap]
  constructor
  · rintro ⟨⟨x, span⟩, hmem, hx⟩
    obtain ⟨name, hname, rfl⟩ := Option.map_eq_some_iff.mp hx
    exact ⟨x, hmem, Segment.name?_eq_some_iff.mp hname, rfl⟩
  · rintro ⟨x, hmem, hx, hraw⟩
    refine ⟨(x, p.span), hmem, ?_⟩
    rw [Placeholder.ofSegment?, Segment.name?_eq_some_iff.mpr hx, Option.map_some, ← hraw]

theorem mem_malformed_iff {source : String} {m : Malformed} :
    m ∈ (scan source).malformed ↔ ∃ x, (x, m.span) ∈ Span.layout Segment.raw .start
      (segments source.toList) ∧ x.reading? = some (.error m.fault) ∧
        m.raw = String.ofList x.raw := by
  rw [scan, List.mem_filterMap]
  constructor
  · rintro ⟨⟨x, span⟩, hmem, hx⟩
    obtain ⟨fault, hfault, rfl⟩ := Option.map_eq_some_iff.mp hx
    exact ⟨x, hmem, Segment.fault?_eq_some_iff.mp hfault, rfl⟩
  · rintro ⟨x, hmem, hx, hraw⟩
    refine ⟨(x, m.span), hmem, ?_⟩
    rw [Malformed.ofSegment?, Segment.fault?_eq_some_iff.mpr hx, Option.map_some, ← hraw]

/-- The placeholders of a text are in strictly increasing order and do not overlap. -/
theorem pairwise_placeholders (source : String) :
    (placeholders source).Pairwise fun p q => p.span.start.offset < q.span.start.offset ∧
      p.span.stop.offset ≤ q.span.start.offset := by
  rw [placeholders_eq]
  refine (pairwise_layout_segments _ _).filterMap _ ?_
  rintro ⟨x, span⟩ ⟨y, span'⟩ hxy p hp q hq
  obtain ⟨name, hname, rfl⟩ := Option.map_eq_some_iff.mp hp
  obtain ⟨name', -, rfl⟩ := Option.map_eq_some_iff.mp hq
  exact hxy (by rw [Segment.name?_eq_some_iff.mp hname]; rfl)

/-- The malformed ranges of a text are in strictly increasing order and do not overlap. -/
theorem pairwise_malformed (source : String) :
    (scan source).malformed.Pairwise fun m n => m.span.start.offset < n.span.start.offset ∧
      m.span.stop.offset ≤ n.span.start.offset := by
  rw [scan]
  refine (pairwise_layout_segments _ _).filterMap _ ?_
  rintro ⟨x, span⟩ ⟨y, span'⟩ hxy m hm n hn
  obtain ⟨fault, hfault, rfl⟩ := Option.map_eq_some_iff.mp hm
  obtain ⟨fault', -, rfl⟩ := Option.map_eq_some_iff.mp hn
  exact hxy (by rw [Segment.fault?_eq_some_iff.mp hfault]; rfl)

/-- A segment of a text ends within the text. -/
theorem stop_le_of_mem_layout {cs : List Char} {x : Segment} {span : Span}
    (h : (x, span) ∈ Span.layout Segment.raw .start (segments cs)) :
    span.stop.offset ≤ byteSize cs := by
  obtain ⟨front, back, hss, rfl⟩ := Span.mem_layout_iff.mp h
  have hcs : cs = front.flatMap Segment.raw ++ (x.raw ++ back.flatMap Segment.raw) := by
    conv_lhs => rw [← raw_segments cs, hss]
    simp
  have hsize := congrArg byteSize hcs
  simp only [byteSize_append] at hsize
  simp only [Span.stop_covering, Position.offset_advance, Position.offset_start]
  omega

/-- The report that covers the end of the text is the last one. -/
theorem getLast?_malformed_of_stop {source : String} {m : Malformed}
    (hm : m ∈ (scan source).malformed) (hstop : m.span.stop.offset = byteSize source.toList) :
    (scan source).malformed.getLast? = some m := by
  obtain ⟨front, back, hsplit⟩ := List.append_of_mem hm
  cases back with
  | nil => rw [hsplit, List.getLast?_concat]
  | cons n back =>
      have hn : n ∈ (scan source).malformed := by simp [hsplit]
      have hpairs := pairwise_malformed source
      rw [hsplit, List.pairwise_append] at hpairs
      have hle := (List.rel_of_pairwise_cons hpairs.2.1 (List.mem_cons_self)).2
      obtain ⟨x, hx, hreads, -⟩ := mem_malformed_iff.mp hn
      obtain ⟨front', back', -, hspan⟩ := Span.mem_layout_iff.mp hx
      have hpos := Segment.byteSize_raw_pos hreads
      have hend := stop_le_of_mem_layout hx
      rw [hspan] at hle hend
      simp only [Span.start_covering, Span.stop_covering, Position.offset_advance] at hle hend
      omega

/-- The placeholders of a text are at the ranges that the grammar reads as names. -/
theorem exists_placeholder_iff {source : String} {s e : ℕ} {name : Name} :
    (∃ p ∈ placeholders source, p.span.Occupies s e ∧ p.name = name) ↔
      Reads source.toList s e (.ok name) := by
  have hgrammar : Reads source.toList s e (.ok name) ↔ Says source.toList s e (.ok name) := by
    simp [Says]
  rw [hgrammar, ← mem_layout_segments_iff]
  constructor
  · rintro ⟨p, hp, hspan, rfl⟩
    obtain ⟨x, hmem, hx, -⟩ := mem_placeholders_iff.mp hp
    exact ⟨x, p.span, hmem, hx, hspan⟩
  · rintro ⟨x, span, hmem, hx, hspan⟩
    exact ⟨⟨name, _, span⟩, mem_placeholders_iff.mpr ⟨x, hmem, hx, rfl⟩, hspan, rfl⟩

/-- The reports of a text are at the ranges that the grammar finds a fault with. -/
theorem exists_malformed_iff {source : String} {s e : ℕ} {fault : Fault} :
    (∃ m ∈ (scan source).malformed, m.span.Occupies s e ∧ m.fault = fault) ↔
      Reads source.toList s e (.error fault) ∨
        fault = .unterminated ∧ FirstUnclosed source.toList s ∧ e = byteSize source.toList := by
  have hgrammar : (Reads source.toList s e (.error fault) ∨
      fault = .unterminated ∧ FirstUnclosed source.toList s ∧ e = byteSize source.toList) ↔
        Says source.toList s e (.error fault) := by
    rw [Says, Except.error.injEq]
  rw [hgrammar, ← mem_layout_segments_iff]
  constructor
  · rintro ⟨m, hm, hspan, rfl⟩
    obtain ⟨x, hmem, hx, -⟩ := mem_malformed_iff.mp hm
    exact ⟨x, m.span, hmem, hx, hspan⟩
  · rintro ⟨x, span, hmem, hx, hspan⟩
    exact ⟨⟨_, span, fault⟩, mem_malformed_iff.mpr ⟨x, hmem, hx, rfl⟩, hspan, rfl⟩

/-- An unterminated report covers the text from the first unclosed marker to the end. -/
theorem firstUnclosed_of_mem_malformed {source : String} {m : Malformed}
    (hm : m ∈ (scan source).malformed) (hfault : m.fault = .unterminated) :
    FirstUnclosed source.toList m.span.start.offset ∧
      m.span.stop.offset = byteSize source.toList := by
  rcases exists_malformed_iff.mp ⟨m, hm, ⟨rfl, rfl⟩, hfault⟩ with hreads | ⟨-, hfirst, hend⟩
  · obtain ⟨-, body, -, hbody⟩ := hreads
    cases hbody
  · exact ⟨hfirst, hend⟩

/-- There is an unterminated report exactly if some marker is unclosed. -/
theorem exists_unterminated_iff {source : String} :
    (∃ m ∈ (scan source).malformed, m.fault = .unterminated) ↔
      ∃ s, Unclosed source.toList s := by
  constructor
  · rintro ⟨m, hm, hfault⟩
    exact ⟨_, (firstUnclosed_of_mem_malformed hm hfault).1.1⟩
  · intro hunclosed
    obtain ⟨s, hfirst⟩ := exists_firstUnclosed hunclosed
    obtain ⟨m, hm, -, hfault⟩ := exists_malformed_iff.mpr (.inr ⟨rfl, hfirst, rfl⟩)
    exact ⟨m, hm, hfault⟩

/-- **Scanning accepts exactly its grammar.** In strictly increasing order and with nothing else,
a scan yields a placeholder for every delimited range whose body reads as a name, and a report for
every other delimited range, with the fault of its body. Exactly if some opening marker is
unclosed there is one last report, which covers the text from the first such marker to the end. -/
theorem scan_accepts_exactly_grammar (source : String) :
    (scan source).placeholders.Pairwise (fun p q => p.span.start.offset < q.span.start.offset) ∧
    (∀ s e name, (∃ p ∈ (scan source).placeholders, p.span.Occupies s e ∧ p.name = name) ↔
      Reads source.toList s e (.ok name)) ∧
    (scan source).malformed.Pairwise (fun m n => m.span.start.offset < n.span.start.offset) ∧
    (∀ s e fault, (∃ m ∈ (scan source).malformed, m.span.Occupies s e ∧ m.fault = fault) ↔
      Reads source.toList s e (.error fault) ∨
        fault = .unterminated ∧ FirstUnclosed source.toList s ∧ e = byteSize source.toList) ∧
    ((∃ m ∈ (scan source).malformed, m.fault = .unterminated) ↔
      ∃ s, Unclosed source.toList s) ∧
    (∀ m ∈ (scan source).malformed, m.fault = .unterminated →
      (scan source).malformed.getLast? = some m) := by
  refine ⟨(pairwise_placeholders source).imp And.left, ?_,
    (pairwise_malformed source).imp And.left, ?_, exists_unterminated_iff, ?_⟩
  · intro s e name
    exact exists_placeholder_iff
  · intro s e fault
    exact exists_malformed_iff
  · intro m hm hfault
    exact getLast?_malformed_of_stop hm (firstUnclosed_of_mem_malformed hm hfault).2

/-- Of three opening braces the last two are the marker; the first is literal text. -/
example : (scan "\x7b\x7b\x7bA:k\x7d\x7d").placeholders.map (fun p => (p.raw, p.name)) =
    [("\x7b\x7bA:k\x7d\x7d", ⟨"A", "k"⟩)] := by
  decide +kernel

end LinkExpr
