import LinkExpr.Proofs.Scan.Ranges
import LinkExpr.Proofs.Scan.Scanner

/-!
# Running the Scanner

The scanner never faults, and what it writes down is the scan of the text. Between two turns, what
is written down, the pending literal text and the text that is left make up the source (`Ready`).
From such a state it can be said which scan it leads to (`outcome`), and every turn leads on to the
same scan, on each of its ways to end.

A turn may end at an opening marker inside a range. The next turn then begins with that marker, and
finds the range whose body is the innermost one: `segments_of_cleanBody` says that nothing is cut
differently because of what was passed before.

## Main results

* `Ready.pushLiteral`, `Ready.flush`, `Ready.pushMalformed`, `Ready.pushPlaceholder`: what is
  written down, and that its spans and slices exist.
* `Ready.turn_leads`: a turn leads on to the same scan.
* `run_eq_scan`: the scanner computes the scan of a text, without a fault.
-/

namespace LinkExpr

open Text

namespace Scanner

/-! ### What the primitives read -/

variable {p : Position} {before between body after rest cs : List Char}

@[simp] theorem skip_append (p : Position) (cs rest : List Char) :
    (⟨p, cs ++ rest⟩ : Cursor).skip cs.length = ⟨p.advance cs, rest⟩ := by
  simp [Cursor.skip]

@[simp] theorem toEnd_mk (p : Position) (cs : List Char) :
    toEnd ⟨p, cs⟩ = ⟨p.advance cs, []⟩ := by
  simp [toEnd, Cursor.skip]

theorem takeUntil?_append {c : Char} (h : ¬ HasPair c (before ++ [c])) :
    takeUntil? c ⟨p, before ++ c :: c :: after⟩ =
      some (⟨p.advance before, c :: c :: after⟩, before) := by
  rw [takeUntil?, splitAtPair?_eq_some_iff.mpr ⟨rfl, h⟩]
  simp

theorem tag?_cons {c : Char} :
    tag? c ⟨p, c :: c :: rest⟩ = some ⟨p.advance [c, c], rest⟩ := by
  simp [tag?, Cursor.skip]

theorem literalRun?_of_no_open (h : ¬ HasPair '{' cs) :
    literalRun? ⟨p, cs⟩ = some ⟨p.advance cs, []⟩ := by
  rw [literalRun?, takeUntil?, splitAtPair?_eq_none_iff.mpr h, toEnd_mk]
  rfl

theorem literalRun?_of_open (h : ¬ HasPair '{' (before ++ ['{'])) :
    literalRun? ⟨p, before ++ '{' :: '{' :: rest⟩ =
      some ⟨p.advance before, '{' :: '{' :: rest⟩ := by
  rw [literalRun?, takeUntil?_append h]
  rfl

theorem delimited?_of_no_close (h : ¬ HasPair '}' rest) :
    delimited? ⟨p, '{' :: '{' :: rest⟩ = none := by
  rw [delimited?, tag?_cons]
  simp [takeUntil?, splitAtPair?_eq_none_iff.mpr h]

theorem delimited?_of_close (h : ¬ HasPair '}' (between ++ ['}'])) :
    delimited? ⟨p, '{' :: '{' :: (between ++ '}' :: '}' :: after)⟩ =
      some (⟨p.advance ('{' :: '{' :: (between ++ ['}', '}'])), after⟩,
        '{' :: '{' :: (between ++ ['}', '}']), between) := by
  have hsplit : '{' :: '{' :: (between ++ '}' :: '}' :: after) =
      '{' :: '{' :: (between ++ ['}', '}']) ++ after := by
    simp
  have hraw : ('{' :: '{' :: (between ++ '}' :: '}' :: after)).take
      (('{' :: '{' :: (between ++ '}' :: '}' :: after)).length - after.length) =
        '{' :: '{' :: (between ++ ['}', '}']) := by
    rw [hsplit, List.length_append, Nat.add_sub_cancel, List.take_left]
  rw [delimited?, tag?_cons]
  simp only [Option.bind_eq_bind, Option.bind_some, takeUntil?_append h, tag?_cons, hraw]
  simp

/-- The last opening marker of a range is the one before its body. -/
theorem splitAtLastPair?_open (between : List Char) :
    splitAtLastPair? '{' ('{' :: '{' :: between) = some (innermost between) := by
  rw [innermost]
  cases h : splitAtLastPair? '{' ('{' :: '{' :: between) with
  | none => exact absurd ⟨[], between, rfl⟩ (splitAtLastPair?_eq_none_iff.mp h)
  | some cut => rfl

/-- The way to the last opening marker of a range, counted in characters, is what comes before
it. -/
theorem resync?_range (between : List Char) :
    resync? ('{' :: '{' :: (between ++ ['}', '}'])) =
      .ok (if (innermost between).1 = [] then none else some (innermost between).1.length) := by
  have hopening : sliceOf ('{' :: '{' :: (between ++ ['}', '}'])) 0
      (byteSize ('{' :: '{' :: (between ++ ['}', '}'])) - 2) = .ok ('{' :: '{' :: between) := by
    refine sliceOf_eq_ok_iff.mpr (slice?_eq_some_iff.mpr ⟨[], ['}', '}'], by simp, rfl, ?_⟩)
    simp
    omega
  obtain ⟨hcut, -⟩ := innermost_spec between
  have hlast : lastOpen? ('{' :: '{' :: between) = some (byteSize (innermost between).1) := by
    rw [lastOpen?, splitAtLastPair?_open]
    rfl
  rw [resync?, hopening]
  simp only [bind, Except.bind, hlast]
  by_cases hskipped : (innermost between).1 = []
  · simp [hskipped]
    rfl
  · obtain ⟨n, hn⟩ : ∃ n, byteSize (innermost between).1 = n + 1 :=
      Nat.exists_eq_succ_of_ne_zero fun h => hskipped (byteSize_eq_zero_iff.mp h)
    have hslice : sliceOf ('{' :: '{' :: between) 0 (n + 1) = .ok (innermost between).1 := by
      refine sliceOf_eq_ok_iff.mpr (slice?_eq_some_iff.mpr ⟨[], _, hcut, rfl, ?_⟩)
      simp [hn]
    simp only [hn, hslice, hskipped, if_false]
    rfl

theorem take?_append (p : Position) (cs rest : List Char) :
    take? cs.length ⟨p, cs ++ rest⟩ = some ⟨p.advance cs, rest⟩ := by
  simp [take?]

theorem spanFrom_advance (p : Position) (cs rest rest' : List Char) :
    spanFrom ⟨p, rest⟩ ⟨p.advance cs, rest'⟩ = .ok (Span.covering p cs) := by
  have h := Span.between_eq_ok (Span.covering p cs)
  rw [Span.start_covering, Span.stop_covering] at h
  rw [spanFrom, h]

theorem sliceOf_advance {source before part after : List Char}
    (h : source = before ++ part ++ after) :
    sliceOf source (Position.start.advance before).offset
      ((Position.start.advance before).advance part).offset = .ok part := by
  refine sliceOf_eq_ok_iff.mpr (slice?_eq_some_iff.mpr ⟨before, after, h, ?_, ?_⟩)
  · simp
  · simp

/-! ### The invariant between two turns -/

/-- Pieces as tokens, laid out from a position on. -/
def tokensAt (p : Position) (pieces : List Piece) : List Token :=
  (Span.layout Piece.raw p pieces).map Token.ofPiece

/-- The reports of segments, laid out from a position on. -/
def reportsAt (p : Position) (ss : List Segment) : List Malformed :=
  (Span.layout Segment.raw p ss).filterMap Malformed.ofSegment?

theorem tokensAt_append (p : Position) (xs ys : List Piece) :
    tokensAt p (xs ++ ys) = tokensAt p xs ++ tokensAt (p.advance (xs.flatMap Piece.raw)) ys := by
  simp [tokensAt, Span.layout_append]

/-- What is written down, the pending literal text and what is left make up the source. The cursor
is where the rest of the text begins, and the pending text is kept as the two cursors around it. -/
structure Ready (source written pending : List Char) (b : Builder) (i : Cursor) : Prop where
  source_eq : source = written ++ pending ++ i.rest
  position_eq : i.position = (Position.start.advance written).advance pending
  pending_eq : b.pending = if pending = [] then none
    else some (⟨Position.start.advance written, pending ++ i.rest⟩, i)

namespace Ready

variable {source written pending : List Char} {b : Builder} {i : Cursor}

/-- Passing literal text makes it pending. -/
theorem pushLiteral (h : Ready source written pending b ⟨p, cs ++ rest⟩) :
    Ready source written (pending ++ cs) (b.pushLiteral ⟨p, cs ++ rest⟩ ⟨p.advance cs, rest⟩)
      ⟨p.advance cs, rest⟩ := by
  obtain ⟨hsource, rfl, hpending⟩ := h
  refine ⟨by simp [hsource], by simp, ?_⟩
  rw [Builder.pushLiteral]
  by_cases hcs : cs = []
  · subst hcs
    simpa using hpending
  · have hsize : byteSize cs ≠ 0 := fun h0 => hcs (byteSize_eq_zero_iff.mp h0)
    have hmoved : ((Position.start.advance written).advance pending).offset ≠
        (((Position.start.advance written).advance pending).advance cs).offset := by
      simp only [Position.offset_advance]
      omega
    rw [if_neg hmoved]
    by_cases hnone : pending = []
    · subst hnone
      simp [hpending, hcs]
    · simp [hpending, hnone]

/-- The pending text is written down as a literal, if there is any. -/
theorem flush (h : Ready source written pending b i) :
    b.flush source = .ok
      ⟨b.tokens ++ tokensAt (Position.start.advance written) (Piece.ofLiteral pending),
        b.malformed, none⟩ := by
  obtain ⟨tokens, malformed, last⟩ := b
  obtain ⟨p, rest⟩ := i
  obtain ⟨hsource, rfl, hpending⟩ := h
  by_cases hnone : pending = []
  · subst hnone
    obtain rfl : last = none := hpending
    simp only [Builder.flush, Piece.ofLiteral, if_true, tokensAt, Span.layout_nil, List.map_nil,
      List.append_nil]
    rfl
  · obtain rfl : last = _ := hpending
    simp only [Builder.flush, hnone, if_false, sliceOf_advance hsource, spanFrom_advance]
    simp only [Piece.ofLiteral, hnone, if_false, tokensAt, Span.layout_cons, Span.layout_nil,
      List.map_cons, List.map_nil, Token.ofPiece, Piece.raw]
    rfl

/-- A malformed range is reported as it is written, in its place. -/
theorem pushMalformed (h : Ready source written pending b ⟨p, cs ++ rest⟩) (fault : Fault) :
    b.pushMalformed source ⟨p, cs ++ rest⟩ ⟨p.advance cs, rest⟩ fault =
      .ok (b.report ⟨String.ofList cs, Span.covering p cs, fault⟩) := by
  obtain ⟨hsource, rfl, -⟩ := h
  have hslice : source = (written ++ pending) ++ cs ++ rest := by simp [hsource]
  rw [← Position.advance_append, Builder.pushMalformed, spanFrom_advance]
  simp only [sliceOf_advance hslice]
  rfl

/-- A placeholder is written down in its place, after the pending text. -/
theorem pushPlaceholder (h : Ready source written pending b ⟨p, cs ++ rest⟩) (name : Name) :
    b.pushPlaceholder source ⟨p, cs ++ rest⟩ ⟨p.advance cs, rest⟩ cs name = .ok
      ⟨b.tokens ++ tokensAt (Position.start.advance written)
        (Piece.ofLiteral pending ++ [.placeholder name cs]), b.malformed, none⟩ := by
  rw [Builder.pushPlaceholder, h.flush, spanFrom_advance, tokensAt_append]
  obtain ⟨-, rfl, -⟩ := h
  simp only [Piece.raw_ofLiteral, tokensAt, Span.layout_cons, Span.layout_nil, List.map_cons,
    List.map_nil, Token.ofPiece, Piece.raw]
  rw [← List.append_assoc]
  rfl

end Ready

/-! ### Turn after turn -/

/-- The scan that a state between two turns leads to. -/
def outcome (written pending : List Char) (b : Builder) (i : Cursor) : Scan where
  tokens := b.tokens ++ tokensAt (Position.start.advance written)
    (Piece.merge pending (segments i.rest))
  malformed := b.malformed ++ reportsAt i.position (segments i.rest)

/-- A turn leads to a scan: it ends there, or in a state that leads there. A turn with a fault
leads nowhere. -/
inductive Leads (source : List Char) (s : Scan) : Except Panic Turn → Prop
  | done {b : Builder} : b.finish source = .ok s → Leads source s (.ok (.done b))
  | next {written pending : List Char} {b : Builder} {j : Cursor} :
      Ready source written pending b j → outcome written pending b j = s →
        Leads source s (.ok (.next b j))

theorem reportsAt_text (p : Position) (cs : List Char) (ss : List Segment) :
    reportsAt p (.text cs :: ss) = reportsAt (p.advance cs) ss := rfl

theorem reportsAt_malformed {x : Segment} {fault : Fault} (h : x.reading? = some (.error fault))
    (p : Position) (ss : List Segment) :
    reportsAt p (x :: ss) =
      ⟨String.ofList x.raw, Span.covering p x.raw, fault⟩ :: reportsAt (p.advance x.raw) ss := by
  rw [reportsAt, Span.layout_cons, List.filterMap_cons, Malformed.ofSegment?, Segment.fault?, h]
  rfl

theorem reportsAt_placeholder {x : Segment} {name : Name} (h : x.reading? = some (.ok name))
    (p : Position) (ss : List Segment) :
    reportsAt p (x :: ss) = reportsAt (p.advance x.raw) ss := by
  rw [reportsAt, Span.layout_cons, List.filterMap_cons, Malformed.ofSegment?, Segment.fault?, h]
  rfl

namespace Ready

variable {source written pending : List Char} {b : Builder} {i : Cursor}

/-- Ending the scan writes the pending text down. -/
theorem finish (h : Ready source written pending b i) :
    b.finish source = .ok
      ⟨b.tokens ++ tokensAt (Position.start.advance written) (Piece.ofLiteral pending),
        b.malformed⟩ := by
  rw [Builder.finish, h.flush]
  rfl

/-- Passing all that is left ends the scan. -/
theorem finish_pushLiteral (h : Ready source written pending b ⟨p, cs⟩) :
    (b.pushLiteral ⟨p, cs⟩ ⟨p.advance cs, []⟩).finish source = .ok
      ⟨b.tokens ++ tokensAt (Position.start.advance written) (Piece.ofLiteral (pending ++ cs)),
        b.malformed⟩ := by
  have hpass : Ready source written pending b ⟨p, cs ++ []⟩ := by rwa [List.append_nil]
  have hend := hpass.pushLiteral.finish
  rwa [List.append_nil, Builder.tokens_pushLiteral, Builder.malformed_pushLiteral] at hend

/-- Text without an opening marker is literal, and the scan is over. -/
theorem turn_text (h : Ready source written pending b ⟨p, cs⟩)
    (hopen : splitAtPair? '{' cs = none) :
    Leads source (outcome written pending b ⟨p, cs⟩) (turn source b ⟨p, cs⟩) := by
  have hturn : turn source b ⟨p, cs⟩ =
      .ok (.done (b.pushLiteral ⟨p, cs⟩ ⟨p.advance cs, []⟩)) := by
    rw [turn, literalRun?_of_no_open (splitAtPair?_eq_none_iff.mp hopen)]
    rfl
  rw [hturn]
  refine .done ?_
  rw [h.finish_pushLiteral, outcome, segments_of_no_open hopen, Piece.merge_text, reportsAt_text]
  simp [Piece.merge, reportsAt]

/-- Literal text may be passed first, if it only makes the first segment longer. -/
theorem outcome_pushLiteral {lead : List Char} {ss : List Segment}
    (hrest : segments rest = .text lead :: ss)
    (hall : segments (cs ++ rest) = .text (cs ++ lead) :: ss) :
    outcome written (pending ++ cs) (b.pushLiteral ⟨p, cs ++ rest⟩ ⟨p.advance cs, rest⟩)
        ⟨p.advance cs, rest⟩ =
      outcome written pending b ⟨p, cs ++ rest⟩ := by
  simp only [outcome, hrest, hall, Piece.merge_text, reportsAt_text, Builder.tokens_pushLiteral,
    Builder.malformed_pushLiteral, List.append_assoc, Position.advance_append]

/-- What is reported does not matter for the invariant. -/
theorem report (h : Ready source written pending b i) (m : Malformed) :
    Ready source written pending (b.report m) i :=
  ⟨h.source_eq, h.position_eq, h.pending_eq⟩

/-- An opening marker that is never closed: the rest is reported and literal, and the scan is
over. -/
theorem range_unterminated (h : Ready source written pending b ⟨p, '{' :: '{' :: rest⟩)
    (hclose : splitAtPair? '}' rest = none) :
    Leads source (outcome written pending b ⟨p, '{' :: '{' :: rest⟩)
      (range source b ⟨p, '{' :: '{' :: rest⟩) := by
  have hreads : (Segment.unterminated rest).reading? = some (.error .unterminated) := rfl
  have hpass : Ready source written pending b ⟨p, '{' :: '{' :: rest ++ []⟩ := by
    rwa [List.append_nil]
  have hreport := hpass.pushMalformed .unterminated
  rw [List.append_nil] at hreport
  rw [range, delimited?_of_no_close (splitAtPair?_eq_none_iff.mp hclose), toEnd_mk]
  simp only [hreport]
  refine .done ((h.report _).finish_pushLiteral.trans ?_)
  rw [outcome, segments_of_no_close (splitAtPair?_open rest) hclose, Piece.merge_text,
    Piece.merge_malformed hreads, reportsAt_text, reportsAt_malformed hreads]
  simp only [Piece.merge, List.append_nil, Segment.raw, Position.advance_nil]
  rfl

/-- An opening marker inside a range: what comes before it is literal, and the next turn begins at
the marker. -/
theorem range_resync (h : Ready source written pending b
      ⟨p, '{' :: '{' :: (between ++ '}' :: '}' :: after)⟩)
    (hclose : ¬ HasPair '}' (between ++ ['}'])) (hskipped : (innermost between).1 ≠ []) :
    Leads source (outcome written pending b ⟨p, '{' :: '{' :: (between ++ '}' :: '}' :: after)⟩)
      (range source b ⟨p, '{' :: '{' :: (between ++ '}' :: '}' :: after)⟩) := by
  have htext := open_append_innermost between ('}' :: '}' :: after)
  have hall := segments_of_close hclose after
  have hrest := segments_of_cleanBody (cleanBody_innermost hclose) after
  rw [← List.append_nil (innermost between).1, htext] at hall
  rw [range, delimited?_of_close hclose]
  simp only [resync?_range, hskipped, if_false]
  simp only [bind, Except.bind]
  rw [htext] at h ⊢
  rw [take?_append, ← outcome_pushLiteral hrest hall]
  exact .next h.pushLiteral rfl

/-- A range is written down as what its body reads as, and the scan goes on behind it. -/
theorem pushRange {body after : List Char}
    (h : Ready source written pending b ⟨p, (Segment.delimited body).raw ++ after⟩) :
    ∃ b' written' pending',
      b.pushRange source ⟨p, (Segment.delimited body).raw ++ after⟩
          ⟨p.advance (Segment.delimited body).raw, after⟩ (Segment.delimited body).raw body =
        .ok b' ∧
      Ready source written' pending' b' ⟨p.advance (Segment.delimited body).raw, after⟩ ∧
      outcome written' pending' b' ⟨p.advance (Segment.delimited body).raw, after⟩ =
        ⟨b.tokens ++ tokensAt (Position.start.advance written)
            (Piece.merge pending (.delimited body :: segments after)),
          b.malformed ++ reportsAt p (.delimited body :: segments after)⟩ := by
  cases hbody : readBody body with
  | ok name =>
      have hreads : (Segment.delimited body).reading? = some (.ok name) :=
        congrArg some hbody
      refine ⟨⟨b.tokens ++ tokensAt (Position.start.advance written) (Piece.ofLiteral pending ++
          [.placeholder name (Segment.delimited body).raw]), b.malformed, none⟩,
        written ++ pending ++ (Segment.delimited body).raw, [], ?_, ?_, ?_⟩
      · rw [Builder.pushRange, hbody]
        exact h.pushPlaceholder name
      · obtain ⟨hsource, rfl, -⟩ := h
        exact ⟨by simp [hsource], by simp, rfl⟩
      · obtain ⟨-, rfl, -⟩ := h
        rw [Piece.merge_placeholder hreads, reportsAt_placeholder hreads, outcome,
          List.append_cons (Piece.ofLiteral pending) _ (Piece.merge [] (segments after)),
          tokensAt_append _ (_ ++ [_]), List.flatMap_append, Piece.raw_ofLiteral]
        simp only [List.flatMap_cons, List.flatMap_nil, Piece.raw, List.append_nil,
          Position.advance_append, List.append_assoc]
  | error fault =>
      have hreads : (Segment.delimited body).reading? = some (.error fault) :=
        congrArg some hbody
      let m : Malformed :=
        ⟨String.ofList (Segment.delimited body).raw, Span.covering p (Segment.delimited body).raw,
          fault⟩
      refine ⟨(b.report m).pushLiteral ⟨p, (Segment.delimited body).raw ++ after⟩
          ⟨p.advance (Segment.delimited body).raw, after⟩,
        written, pending ++ (Segment.delimited body).raw, ?_, (h.report m).pushLiteral, ?_⟩
      · rw [Builder.pushRange, hbody]
        simp only [h.pushMalformed]
        rfl
      · rw [Piece.merge_malformed hreads, reportsAt_malformed hreads, outcome]
        simp [Builder.report, m]

/-- A range without a further opening marker is written down, and the next turn begins behind
it. -/
theorem range_body (h : Ready source written pending b
      ⟨p, '{' :: '{' :: (body ++ '}' :: '}' :: after)⟩) (hclean : CleanBody body) :
    Leads source (outcome written pending b ⟨p, '{' :: '{' :: (body ++ '}' :: '}' :: after)⟩)
      (range source b ⟨p, '{' :: '{' :: (body ++ '}' :: '}' :: after)⟩) := by
  have htext : '{' :: '{' :: (body ++ '}' :: '}' :: after) =
      (Segment.delimited body).raw ++ after := by
    simp [Segment.raw]
  obtain ⟨b', written', pending', hpush, hready, houtcome⟩ := (htext ▸ h).pushRange
  rw [← htext, Segment.raw] at hpush
  rw [range, delimited?_of_close hclean.2]
  simp only [resync?_range, innermost_of_no_open hclean.1, if_true]
  simp only [bind, Except.bind, hpush]
  refine .next hready (houtcome.trans ?_)
  rw [outcome, segments_of_cleanBody hclean, Piece.merge_text, reportsAt_text, List.append_nil,
    Position.advance_nil]

/-- A range leads on to the same scan. -/
theorem range_leads (h : Ready source written pending b ⟨p, '{' :: '{' :: rest⟩) :
    Leads source (outcome written pending b ⟨p, '{' :: '{' :: rest⟩)
      (range source b ⟨p, '{' :: '{' :: rest⟩) := by
  cases hclose : splitAtPair? '}' rest with
  | none => exact h.range_unterminated hclose
  | some cut =>
      obtain ⟨between, after⟩ := cut
      obtain ⟨rfl, hfirst⟩ := splitAtPair?_eq_some_iff.mp hclose
      by_cases hopen : HasPair '{' ('{' :: between)
      · exact h.range_resync hfirst (innermost_ne_nil hopen)
      · exact h.range_body ⟨hopen, hfirst⟩

/-- **A turn leads on to the same scan.** -/
theorem turn_leads (h : Ready source written pending b i) :
    Leads source (outcome written pending b i) (turn source b i) := by
  obtain ⟨p, cs⟩ := i
  cases hopen : splitAtPair? '{' cs with
  | none => exact h.turn_text hopen
  | some cut =>
      obtain ⟨before, rest⟩ := cut
      obtain ⟨rfl, hfirst⟩ := splitAtPair?_eq_some_iff.mp hopen
      obtain ⟨lead, ss, hrest, hall⟩ := segments_open hfirst rest
      have hturn : turn source b ⟨p, before ++ '{' :: '{' :: rest⟩ =
          range source (b.pushLiteral ⟨p, before ++ '{' :: '{' :: rest⟩
            ⟨p.advance before, '{' :: '{' :: rest⟩) ⟨p.advance before, '{' :: '{' :: rest⟩ := by
        rw [turn, literalRun?_of_open hfirst]
        rfl
      rw [hturn, ← outcome_pushLiteral hrest hall]
      exact h.pushLiteral.range_leads

end Ready

/-- **The scanner never faults**: from every state between two turns it goes on to the scan that
the state leads to. -/
theorem loop_eq {source written pending : List Char} {b : Builder} {i : Cursor}
    (h : Ready source written pending b i) :
    loop source b i = .ok (outcome written pending b i) := by
  induction b, i using loop.induct source generalizing written pending with
  | case1 b i hrest =>
      rw [loop, if_pos hrest, h.finish, outcome, hrest, segments_of_no_open rfl, Piece.merge_text,
        reportsAt_text]
      simp [Piece.merge, reportsAt]
  | case2 b i hrest fault hturn =>
      have hleads := h.turn_leads
      rw [hturn] at hleads
      cases hleads
  | case3 b i hrest b' hturn =>
      have hleads := h.turn_leads
      rw [hturn] at hleads
      cases hleads with
      | done hfinish => rw [loop_done hrest hturn, hfinish]
  | case4 b i hrest b' j hturn ih =>
      have hleads := h.turn_leads
      rw [hturn] at hleads
      cases hleads with
      | next hready houtcome => rw [loop_next hrest hturn, ih hready, houtcome]

/-- **The scanner computes the scan of a text**, without a fault. -/
theorem run_eq_scan (source : String) : run source = .ok (scan source) := by
  have hready : Ready source.toList [] [] ⟨[], [], none⟩ ⟨.start, source.toList⟩ :=
    ⟨rfl, rfl, rfl⟩
  rw [run, loop_eq hready]
  rfl

end Scanner

end LinkExpr
