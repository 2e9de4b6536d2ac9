import LinkExpr.Proofs.Scan.Acceptance
import LinkExpr.Proofs.Scan.ScannerRun
import Mathlib.Data.List.Chain
import Mathlib.Data.List.DropRight

/-!
# Scanning Is Lossless

Nothing of a text is lost by scanning it, and every span of a scan is exact. Where a position is
in a text is said by the text before it (`Position.IsAt`), and that spans cover a text without gaps
by where each of them begins (`Span.Tiles`); neither mentions how a scan is computed.

All spans of a scan come from `Span.layout`, so what holds of every layout of the text holds of
the tokens and of the reports alike. That a report lies inside one literal is a property of
merging: a malformed segment goes into the literal that is pending when it is read.

## Main results

* `mem_layout_marks`: the spans of a layout of a text mark exactly what they are laid over.
* `isChain_merge`: of two pieces next to each other one is a placeholder.
* `exists_literal_of_mem_layout`: what is not a placeholder lies inside one literal.
* `scanning_is_lossless`: the scanner gives the scan of the text without a fault, and the scan
  is lossless and exact.
-/

namespace LinkExpr

open Text

/-! ### Places of a text -/

/-- A position is a place of a text: the offset is the size of the text before it, the line counts
the newlines before it, and the column the characters since the last of them. -/
def Position.IsAt (p : Position) (cs : List Char) : Prop :=
  ∃ before after, cs = before ++ after ∧ p.offset = byteSize before ∧
    p.line = 1 + before.count '\n' ∧ p.column = 1 + (before.rtakeWhile (· ≠ '\n')).length

/-- The column after some text counts the characters since its last newline. -/
theorem Position.column_start_advance (cs : List Char) :
    (Position.start.advance cs).column = 1 + (cs.rtakeWhile (· ≠ '\n')).length := by
  induction cs using List.reverseRecOn with
  | nil => rfl
  | append_singleton cs c ih =>
      rw [Position.advance_append, Position.advance_cons, Position.advance_nil, Position.step,
        List.rtakeWhile_concat]
      by_cases hc : c = '\n'
      · simp [hc]
      · simp [hc, ih, Nat.add_assoc]

/-- The place after some text of a larger one. -/
theorem Position.isAt_start_advance (before after : List Char) :
    (Position.start.advance before).IsAt (before ++ after) := by
  refine ⟨before, after, rfl, ?_, ?_, Position.column_start_advance before⟩
  · rw [Position.offset_advance, Position.offset_start, Nat.zero_add]
  · rw [Position.line_advance, Position.line_start]

/-- A text is as long in bytes as its characters are together. -/
theorem byteSize_toList (source : String) : byteSize source.toList = source.utf8ByteSize := by
  have hlist : ∀ cs : List Char, byteSize cs = (String.ofList cs).utf8ByteSize := by
    intro cs
    induction cs with
    | nil => rfl
    | cons c cs ih =>
        rw [byteSize_cons, ih, String.ofList_cons, String.utf8ByteSize_append]
        simp
  rw [hlist, String.ofList_toList]

/-- A span marks a part of a text: the part lies in the span, and both ends of the span are places
of the text. -/
structure Span.Marks (span : Span) (source part : String) : Prop where
  slice : span.slice? source = some part
  start : span.start.IsAt source.toList
  stop : span.stop.IsAt source.toList

/-- The spans of a layout of a text mark exactly what they are laid over. -/
theorem Span.mem_layout_marks {α : Type} {raw : α → List Char} {xs : List α} {x : α} {span : Span}
    {source : String} (hsource : xs.flatMap raw = source.toList)
    (h : (x, span) ∈ Span.layout raw .start xs) : span.Marks source (String.ofList (raw x)) := by
  obtain ⟨front, back, rfl, rfl⟩ := Span.mem_layout_iff.mp h
  have hcut : source.toList = front.flatMap raw ++ raw x ++ back.flatMap raw := by
    rw [← hsource]
    simp
  refine ⟨?_, ?_, ?_⟩
  · have hslice := Span.slice?_covering (front.flatMap raw) (raw x) (back.flatMap raw)
    rwa [← hcut, String.ofList_toList] at hslice
  · rw [hcut, List.append_assoc]
    exact Position.isAt_start_advance _ _
  · rw [hcut, Span.stop_covering, ← Position.advance_append]
    exact Position.isAt_start_advance _ _

/-- Spans cover what lies between two positions: each begins where the one before it ends. -/
def Span.Tiles : Position → List Span → Position → Prop
  | p, [], q => p = q
  | p, span :: spans, q => span.start = p ∧ Span.Tiles span.stop spans q

/-- A layout covers the text that it is made of. -/
theorem Span.tiles_layout {α : Type} (raw : α → List Char) (p : Position) (xs : List α) :
    Span.Tiles p ((Span.layout raw p xs).map Prod.snd) (p.advance (xs.flatMap raw)) := by
  induction xs generalizing p with
  | nil => rfl
  | cons x xs ih =>
      rw [List.flatMap_cons, Position.advance_append]
      exact ⟨rfl, ih (p.advance (raw x))⟩

/-! ### Merging -/

namespace Piece

/-- A piece that is copied as it is. -/
def IsLiteral : Piece → Prop
  | literal _ => True
  | placeholder _ _ => False

/-- Literal text is a piece exactly if it is not empty. -/
theorem mem_ofLiteral_iff {piece : Piece} {chars : List Char} :
    piece ∈ ofLiteral chars ↔ chars ≠ [] ∧ piece = .literal chars := by
  rw [ofLiteral]
  split <;> simp_all

/-- No piece is empty. -/
theorem raw_ne_nil_of_mem_merge {piece : Piece} {pending : List Char} {ss : List Segment}
    (h : piece ∈ merge pending ss) : piece.raw ≠ [] := by
  induction ss generalizing pending with
  | nil =>
      obtain ⟨hne, rfl⟩ := mem_ofLiteral_iff.mp h
      exact hne
  | cons s rest ih =>
      rw [merge] at h
      split at h
      · rename_i name hname
        rcases List.mem_append.mp h with hliteral | hplaceholder
        · obtain ⟨hne, rfl⟩ := mem_ofLiteral_iff.mp hliteral
          exact hne
        · rcases List.mem_cons.mp hplaceholder with rfl | hrest
          · exact Segment.raw_ne_nil (Segment.name?_eq_some_iff.mp hname)
          · exact ih hrest
      · exact ih h

/-- **Of two pieces next to each other one is a placeholder.** -/
theorem isChain_merge (pending : List Char) (ss : List Segment) :
    (merge pending ss).IsChain fun a b => ¬ (a.IsLiteral ∧ b.IsLiteral) := by
  induction ss generalizing pending with
  | nil =>
      rw [merge, ofLiteral]
      split
      · exact .nil
      · exact .singleton _
  | cons s rest ih =>
      rw [merge]
      split
      · rename_i name hname
        have hrest : (placeholder name s.raw :: merge [] rest).IsChain
            fun a b => ¬ (a.IsLiteral ∧ b.IsLiteral) :=
          List.isChain_cons.mpr ⟨fun _ _ hboth => hboth.1, ih []⟩
        rw [ofLiteral]
        split
        · exact hrest
        · exact .cons_cons (fun hboth => hboth.2) hrest
      · exact ih _

/-- Pending text is the beginning of the first piece. -/
theorem exists_merge_eq_cons {pending : List Char} (h : pending ≠ []) (ss : List Segment) :
    ∃ more back, merge pending ss = .literal (pending ++ more) :: back := by
  induction ss generalizing pending with
  | nil => exact ⟨[], [], by simp [merge, ofLiteral, h]⟩
  | cons s rest ih =>
      rw [merge]
      split
      · rename_i name hname
        exact ⟨[], .placeholder name s.raw :: merge [] rest, by simp [ofLiteral, h]⟩
      · have hlonger : pending ++ s.raw ≠ [] := fun hnil => h (List.append_eq_nil_iff.mp hnil).1
        obtain ⟨more, back, hmerge⟩ := ih hlonger
        exact ⟨s.raw ++ more, back, by rw [hmerge, List.append_assoc]⟩

end Piece

/-- One span lies inside another. -/
def Span.Within (inner outer : Span) : Prop :=
  outer.start.offset ≤ inner.start.offset ∧ inner.stop.offset ≤ outer.stop.offset

/-- **What is not a placeholder lies inside one literal**, unless it is empty. -/
theorem exists_literal_of_mem_layout {p : Position} {pending : List Char} {ss : List Segment}
    {x : Segment} {span : Span} (hmem : (x, span) ∈ Span.layout Segment.raw (p.advance pending) ss)
    (hname : x.name? = none) (hraw : x.raw ≠ []) :
    ∃ chars outer, (.literal chars, outer) ∈ Span.layout Piece.raw p (Piece.merge pending ss) ∧
      span.Within outer := by
  induction ss generalizing p pending with
  | nil => exact absurd hmem List.not_mem_nil
  | cons s rest ih =>
      rw [Span.layout_cons, List.mem_cons, Prod.mk.injEq] at hmem
      rcases hmem with ⟨rfl, rfl⟩ | hrest
      · -- the segment itself becomes part of the pending text
        have hpending : pending ++ x.raw ≠ [] :=
          fun hnil => hraw (List.append_eq_nil_iff.mp hnil).2
        obtain ⟨more, back, hmerge⟩ := Piece.exists_merge_eq_cons hpending rest
        refine ⟨pending ++ x.raw ++ more, Span.covering p (pending ++ x.raw ++ more), ?_, ?_⟩
        · rw [Piece.merge, hname, hmerge]
          exact List.mem_cons_self
        · simp only [Span.Within, Span.start_covering, Span.stop_covering,
            Position.offset_advance, byteSize_append]
          omega
      · rw [Piece.merge]
        split
        · -- what follows a placeholder is laid out behind it
          rename_i name _
          have hafter : (x, span) ∈ Span.layout Segment.raw
              (((p.advance pending).advance s.raw).advance []) rest := hrest
          obtain ⟨chars, outer, hliteral, hwithin⟩ := ih hafter
          refine ⟨chars, outer, ?_, hwithin⟩
          rw [Span.layout_append, Piece.raw_ofLiteral, Span.layout_cons]
          exact List.mem_append_right _ (List.mem_cons_of_mem _ hliteral)
        · rw [← Position.advance_append] at hrest
          exact ih hrest

/-! ### The scan of a text -/

/-- Two tokens of which one is a placeholder. -/
def Token.Separated (a b : Token) : Prop :=
  a.placeholder?.isSome ∨ b.placeholder?.isSome

/-- A scan loses nothing of a text, and its spans are exact. -/
structure Scan.Exact (source : String) (s : Scan) : Prop where
  /-- The tokens, one after the other, are the text. -/
  lossless : String.join (s.tokens.map Token.raw) = source
  /-- The tokens follow one another from the beginning of the text to its end. -/
  tiles : ∃ stop, Span.Tiles .start (s.tokens.map Token.span) stop ∧
    stop.offset = source.utf8ByteSize
  /-- Only the empty text has no token. -/
  empty_iff : s.tokens = [] ↔ source = ""
  /-- No token is empty. -/
  nonempty : ∀ token ∈ s.tokens, token.raw ≠ ""
  /-- No literal follows another. -/
  separated : s.tokens.IsChain Token.Separated
  /-- The span of a token marks what the token is written as. -/
  tokens_marked : ∀ token ∈ s.tokens, token.span.Marks source token.raw
  /-- The span of a report marks what is malformed. -/
  malformed_marked : ∀ m ∈ s.malformed, m.span.Marks source m.raw
  /-- The reports come in increasing order and do not overlap. -/
  disjoint : s.malformed.Pairwise fun m n => m.span.start.offset < n.span.start.offset ∧
    m.span.stop.offset ≤ n.span.start.offset
  /-- Every report lies inside one literal. -/
  inside : ∀ m ∈ s.malformed, ∃ text outer, .literal text outer ∈ s.tokens ∧
    m.span.Within outer

theorem mem_tokens_iff {source : String} {token : Token} :
    token ∈ (scan source).tokens ↔ ∃ piece span,
      (piece, span) ∈ Span.layout Piece.raw .start (pieces source) ∧
        Token.ofPiece (piece, span) = token := by
  rw [scan, List.mem_map, Prod.exists]

theorem flatMap_raw_pieces (source : String) :
    (pieces source).flatMap Piece.raw = source.toList := by
  rw [pieces, Piece.raw_merge, List.nil_append, raw_segments]

/-- Only the empty text has no piece. -/
theorem pieces_eq_nil_iff {source : String} : pieces source = [] ↔ source = "" := by
  rw [← String.toList_inj, ← flatMap_raw_pieces source]
  constructor
  · intro hnil
    rw [hnil]
    rfl
  · intro hempty
    refine List.eq_nil_iff_forall_not_mem.mpr fun piece hpiece => ?_
    exact Piece.raw_ne_nil_of_mem_merge hpiece (List.flatMap_eq_nil_iff.mp hempty piece hpiece)

theorem map_span_tokens (source : String) :
    (scan source).tokens.map Token.span =
      (Span.layout Piece.raw .start (pieces source)).map Prod.snd := by
  rw [scan, List.map_map]
  exact List.map_congr_left fun x _ => Token.span_ofPiece x

/-- A malformed range of a text lies inside one literal of it. -/
theorem exists_literal_of_mem_malformed {source : String} {m : Malformed}
    (h : m ∈ (scan source).malformed) :
    ∃ text outer, .literal text outer ∈ (scan source).tokens ∧ m.span.Within outer := by
  obtain ⟨x, hmem, hreads, -⟩ := mem_malformed_iff.mp h
  have hname : x.name? = none := by rw [Segment.name?, hreads]
  have hraw : x.raw ≠ [] := Segment.raw_ne_nil hreads
  have hplaced : (x, m.span) ∈ Span.layout Segment.raw (Position.start.advance [])
      (segments source.toList) := hmem
  obtain ⟨chars, outer, hliteral, hwithin⟩ := exists_literal_of_mem_layout hplaced hname hraw
  exact ⟨String.ofList chars, outer, mem_tokens_iff.mpr ⟨_, outer, hliteral, rfl⟩, hwithin⟩

/-- No literal of a text follows another. -/
theorem isChain_separated_tokens (source : String) :
    (scan source).tokens.IsChain Token.Separated := by
  have hpieces : (Span.layout Piece.raw .start (pieces source)).IsChain
      fun x y => ¬ (x.1.IsLiteral ∧ y.1.IsLiteral) := by
    have hmerge := Piece.isChain_merge [] (segments source.toList)
    rw [← Span.map_fst_layout Piece.raw .start (Piece.merge _ _)] at hmerge
    exact (List.isChain_map Prod.fst).mp hmerge
  rw [scan, List.isChain_map]
  refine hpieces.imp ?_
  rintro ⟨a, span⟩ ⟨b, span'⟩ hab
  cases a with
  | placeholder name chars => exact .inl rfl
  | literal chars =>
      cases b with
      | placeholder name chars' => exact .inr rfl
      | literal chars' => exact absurd ⟨trivial, trivial⟩ hab

/-- The scan of a text is lossless and exact. -/
theorem scan_exact (source : String) : (scan source).Exact source where
  lossless := by
    rw [← String.toList_inj, String.toList_join, List.flatMap_map]
    exact raw_tokens source
  tiles := by
    refine ⟨Position.start.advance source.toList, ?_, ?_⟩
    · rw [map_span_tokens, ← flatMap_raw_pieces]
      exact Span.tiles_layout Piece.raw .start (pieces source)
    · rw [Position.offset_advance, Position.offset_start, Nat.zero_add, byteSize_toList]
  empty_iff := by
    rw [scan, List.map_eq_nil_iff, ← List.map_eq_nil_iff, Span.map_fst_layout, pieces_eq_nil_iff]
  nonempty := by
    intro token htoken
    obtain ⟨piece, span, hmem, rfl⟩ := mem_tokens_iff.mp htoken
    obtain ⟨front, back, hpieces, -⟩ := Span.mem_layout_iff.mp hmem
    rw [Token.raw_ofPiece, Ne, String.ofList_eq_empty_iff]
    exact Piece.raw_ne_nil_of_mem_merge (hpieces ▸ List.mem_append_right _ List.mem_cons_self)
  separated := isChain_separated_tokens source
  tokens_marked := by
    intro token htoken
    obtain ⟨piece, span, hmem, rfl⟩ := mem_tokens_iff.mp htoken
    rw [Token.raw_ofPiece, Token.span_ofPiece]
    exact Span.mem_layout_marks (flatMap_raw_pieces source) hmem
  malformed_marked := by
    intro m hm
    obtain ⟨x, hmem, -, hraw⟩ := mem_malformed_iff.mp hm
    rw [hraw]
    exact Span.mem_layout_marks (raw_segments source.toList) hmem
  disjoint := pairwise_malformed source
  inside := fun _ hm => exists_literal_of_mem_malformed hm

/-- **Scanning is lossless, exact and never faults.** Read with checked spans and slices, a text
gives its scan, and the scan has every property of `Scan.Exact`. -/
theorem scanning_is_lossless (source : String) :
    Scanner.run source = .ok (scan source) ∧ (scan source).Exact source :=
  ⟨Scanner.run_eq_scan source, scan_exact source⟩

end LinkExpr
