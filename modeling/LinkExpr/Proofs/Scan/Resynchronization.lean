import LinkExpr.Proofs.Scan.Placement

/-!
# Going On Inside a Range

A range may hold a further opening marker before its first closing one. The scanner then passes the
text before the last of them and begins its next turn there. The place of that marker is found in
bytes, the way to it is counted in characters, and the primitive that passes the characters may
refuse. None of this goes wrong: from every state of the loop the scanner arrives exactly at the
marker, and the next turn reads the range that begins there.

Where a cursor arrives is said in bytes (`Cursor.MovesBy`), where a marker stands without a scanner
(`LastPairAt`), and how a turn may go by one case for each way that is open (`Goes`). The loop is
followed from state to state (`Reached`), so that what holds of a state of the run carries no
assumption about the scanner.

## Main results

* `lastOpen?_eq_some_iff`: the search from the right finds the last opening marker of a text.
* `delimited?_eq_some_iff`: a range is read exactly if the text is cut at its first closing marker.
* `exists_resyncs`: the characters before the last opening marker of a range lead to that marker.
* `goes_of_turn`: no turn goes the way of a primitive that refuses to pass literal text.
* `Reached.leads`, `Reached.exists_stops`: every turn of the loop succeeds, and some turn ends it.
* `resynchronization_is_exact`: all of this for every turn of a scan.
-/

namespace LinkExpr

open Text

/-! ### The last marker of a text -/

/-- The last place of a text where a character stands twice in a row. -/
structure LastPairAt (c : Char) (cs : List Char) (n : ℕ) : Prop where
  pair : PairAt c cs n
  last : ∀ m, PairAt c cs m → m ≤ n

theorem LastPairAt.unique {c : Char} {cs : List Char} {m n : ℕ} (hm : LastPairAt c cs m)
    (hn : LastPairAt c cs n) : m = n :=
  Nat.le_antisymm (hn.last m hm.pair) (hm.last n hn.pair)

/-- A pair that no later one follows is the last. -/
theorem lastPairAt_append {before after : List Char} (h : ¬ HasPair '{' ('{' :: after)) :
    LastPairAt '{' (before ++ '{' :: '{' :: after) (byteSize before) := by
  refine ⟨⟨before, after, rfl, rfl⟩, fun m hm => ?_⟩
  by_contra hlt
  have hend := hm.add_two_le
  -- a later pair begins with the second brace of this one at the earliest
  have hlater := hasPair_iff_pairAt utf8Size_openBrace (before ++ ['{']) ('{' :: after) []
  simp only [List.append_assoc, List.cons_append, List.nil_append, List.append_nil,
    byteSize_append, byteSize_cons, byteSize_nil, utf8Size_openBrace] at hlater hend
  exact h (hlater.mpr ⟨m, by omega, by omega, hm⟩)

namespace Scanner

/-- **The search from the right** finds the last opening marker of a text. -/
theorem lastOpen?_eq_some_iff {cs : List Char} {n : ℕ} :
    lastOpen? cs = some n ↔ LastPairAt '{' cs n := by
  have hfound : ∀ m, lastOpen? cs = some m → LastPairAt '{' cs m := by
    intro m hm
    obtain ⟨⟨before, after⟩, hsplit, rfl⟩ := Option.map_eq_some_iff.mp hm
    obtain ⟨rfl, hfree⟩ := splitAtLastPair?_spec hsplit
    exact lastPairAt_append hfree
  refine ⟨hfound n, fun h => ?_⟩
  cases hlast : lastOpen? cs with
  | none =>
      obtain ⟨before, after, hcs, -⟩ := h.pair
      have hnone := splitAtLastPair?_eq_none_iff.mp (Option.map_eq_none_iff.mp hlast)
      exact absurd ⟨before, after, by simp [hcs]⟩ hnone
  | some m => rw [(hfound m hlast).unique h]

/-! ### Moving a cursor -/

/-- A cursor stands a number of bytes behind another one, with all that lies between passed. -/
def Cursor.MovesBy (i : Cursor) (n : ℕ) (j : Cursor) : Prop :=
  ∃ cs, i.rest = cs ++ j.rest ∧ j.position = i.position.advance cs ∧ byteSize cs = n

section Moving

variable {i j k : Cursor} {m n : ℕ}

theorem Cursor.movesBy_skip (i : Cursor) (n : ℕ) :
    i.MovesBy (byteSize (i.rest.take n)) (i.skip n) :=
  ⟨i.rest.take n, (List.take_append_drop n i.rest).symm, rfl, rfl⟩

theorem Cursor.MovesBy.trans (h : i.MovesBy m j) (h' : j.MovesBy n k) : i.MovesBy (m + n) k := by
  obtain ⟨cs, hrest, hposition, rfl⟩ := h
  obtain ⟨ds, hrest', hposition', rfl⟩ := h'
  refine ⟨cs ++ ds, ?_, ?_, byteSize_append cs ds⟩
  · rw [hrest, hrest', List.append_assoc]
  · rw [hposition', hposition, Position.advance_append]

theorem Cursor.MovesBy.offset_eq (h : i.MovesBy n j) :
    j.position.offset = i.position.offset + n := by
  obtain ⟨cs, -, hposition, rfl⟩ := h
  rw [hposition, Position.offset_advance]

theorem Cursor.MovesBy.suffix (h : i.MovesBy n j) : j.rest <:+ i.rest := by
  obtain ⟨cs, hrest, -, -⟩ := h
  exact ⟨cs, hrest.symm⟩

theorem Cursor.MovesBy.byteSize_rest (h : i.MovesBy n j) :
    byteSize i.rest = n + byteSize j.rest := by
  obtain ⟨cs, hrest, -, rfl⟩ := h
  rw [hrest, byteSize_append]

end Moving

/-! ### What is read at a range -/

section Reading

variable {p : Position} {opened behind inner : Cursor} {cs raw content : List Char} {m n : ℕ}

/-- Passing literal text never fails. -/
theorem exists_literalRun? (i : Cursor) : ∃ opened, literalRun? i = some opened := by
  rw [literalRun?]
  cases takeUntil? '{' i with
  | none => exact ⟨_, rfl⟩
  | some found => exact ⟨_, rfl⟩

theorem rest_of_tag? {c : Char} {i j : Cursor} (h : tag? c i = some j) :
    ∃ rest, i.rest = c :: c :: rest := by
  rw [tag?] at h
  split at h
  · rename_i a b rest hrest
    split at h
    · rename_i hpair
      obtain ⟨rfl, rfl⟩ := hpair
      exact ⟨rest, hrest⟩
    · cases h
  · cases h

/-- **A range is read** exactly if the text begins with an opening marker and a closing marker
follows, and then it goes up to the first one. -/
theorem delimited?_eq_some_iff :
    delimited? ⟨p, cs⟩ = some (behind, raw, content) ↔ ∃ after,
      cs = '{' :: '{' :: (content ++ '}' :: '}' :: after) ∧ ¬ HasPair '}' (content ++ ['}']) ∧
        raw = '{' :: '{' :: (content ++ ['}', '}']) ∧ behind = ⟨p.advance raw, after⟩ := by
  constructor
  · intro h
    obtain ⟨inside, hopen, -⟩ := Option.bind_eq_some_iff.mp h
    obtain ⟨rest, rfl⟩ : ∃ rest, cs = '{' :: '{' :: rest := rest_of_tag? hopen
    cases hclose : splitAtPair? '}' rest with
    | none =>
        rw [delimited?_of_no_close (splitAtPair?_eq_none_iff.mp hclose)] at h
        cases h
    | some cut =>
        obtain ⟨between, after⟩ := cut
        obtain ⟨rfl, hfirst⟩ := splitAtPair?_eq_some_iff.mp hclose
        rw [delimited?_of_close hfirst, Option.some.injEq, Prod.mk.injEq, Prod.mk.injEq] at h
        obtain ⟨rfl, rfl, rfl⟩ := h
        exact ⟨after, rfl, hfirst, rfl, rfl⟩
  · rintro ⟨after, rfl, hfirst, rfl, rfl⟩
    exact delimited?_of_close hfirst

/-- The scanner arrives exactly at an opening marker inside a range that has been read, and reads
the range that begins there as part of the same range. -/
structure Resyncs (opened behind inner : Cursor) (raw : List Char) (m : ℕ) : Prop where
  /-- The characters before the marker are counted, and there are as many to pass. -/
  taken : ∃ n, resync? raw = .ok (some n) ∧ take? n opened = some inner
  /-- Passing them moves the cursor by as many bytes as the place of the marker says. -/
  moved : opened.MovesBy m inner
  /-- The marker comes next. -/
  opens : ∃ rest, inner.rest = '{' :: '{' :: rest
  /-- There is no literal text to pass before it. -/
  no_literal : literalRun? inner = some inner
  /-- The range from there on is read up to the same closing marker, and has no further opening
  marker inside. -/
  same_close : ∃ raw' content', delimited? inner = some (behind, raw', content') ∧
    resync? raw' = .ok none

/-- **The characters before the last opening marker of a range lead to that marker.** If it is the
one that the range begins with, the scanner does not go there. -/
theorem exists_resyncs (h : delimited? opened = some (behind, raw, content)) :
    ∃ opening m, raw = opening ++ ['}', '}'] ∧ LastPairAt '{' opening m ∧
      (m = 0 → resync? raw = .ok none) ∧ (0 < m → ∃ inner, Resyncs opened behind inner raw m) := by
  obtain ⟨p, cs⟩ := opened
  obtain ⟨after, rfl, hfirst, rfl, rfl⟩ := delimited?_eq_some_iff.mp h
  have hlast : lastOpen? ('{' :: '{' :: content) = some (byteSize (innermost content).1) := by
    rw [lastOpen?, splitAtLastPair?_open]
    rfl
  refine ⟨'{' :: '{' :: content, byteSize (innermost content).1, rfl,
    lastOpen?_eq_some_iff.mp hlast, fun hzero => ?_, fun hpos => ?_⟩
  · rw [resync?_range, if_pos (byteSize_eq_zero_iff.mp hzero)]
  · have hskipped : (innermost content).1 ≠ [] :=
      fun hnil => hpos.ne' (byteSize_eq_zero_iff.mpr hnil)
    -- the range from the marker on is the end of the whole range, so both stop at one place
    have htext := open_append_innermost content ('}' :: '}' :: after)
    have hraw := open_append_innermost content ['}', '}']
    have hclean := cleanBody_innermost hfirst
    have hmarker : ¬ HasPair '{' ([] ++ ['{']) := not_hasPair_singleton _ _
    refine ⟨⟨p.advance (innermost content).1,
      '{' :: '{' :: ((innermost content).2 ++ '}' :: '}' :: after)⟩, ?_, ?_, ?_, ?_, ?_⟩
    · refine ⟨(innermost content).1.length, ?_, ?_⟩
      · rw [resync?_range, if_neg hskipped]
      · rw [htext, take?_append]
    · exact ⟨_, htext, rfl, rfl⟩
    · exact ⟨_, rfl⟩
    · exact literalRun?_of_open hmarker
    · refine ⟨_, _, delimited?_eq_some_iff.mpr ⟨after, rfl, hclean.2, rfl, ?_⟩, ?_⟩
      · rw [hraw, Position.advance_append]
      · rw [resync?_range, innermost_of_no_open hclean.1, if_pos rfl]

/-- If characters of a range are to be passed, then there are as many, and they lead to a marker. -/
theorem exists_resyncs_of_resync? (h : delimited? opened = some (behind, raw, content))
    (hresync : resync? raw = .ok (some n)) :
    ∃ inner m, take? n opened = some inner ∧ 0 < m ∧ Resyncs opened behind inner raw m := by
  obtain ⟨opening, m, -, -, hzero, hpos⟩ := exists_resyncs h
  rcases Nat.eq_zero_or_pos m with hm | hm
  · rw [hzero hm] at hresync
    cases hresync
  · obtain ⟨inner, hinner⟩ := hpos hm
    obtain ⟨n', hresync', htaken⟩ := hinner.taken
    obtain rfl := Option.some.inj (Except.ok.inj (hresync.symm.trans hresync'))
    exact ⟨inner, m, htaken, hm, hinner⟩

/-- Behind a range all of it is passed. -/
theorem movesBy_of_delimited? (h : delimited? opened = some (behind, raw, content)) :
    ∃ n, 0 < n ∧ opened.MovesBy n behind := by
  obtain ⟨p, cs⟩ := opened
  obtain ⟨after, rfl, -, rfl, rfl⟩ := delimited?_eq_some_iff.mp h
  refine ⟨_, ?_, '{' :: '{' :: (content ++ ['}', '}']), by simp, rfl, rfl⟩
  rw [byteSize_cons, utf8Size_openBrace]
  omega

end Reading

/-! ### The ways of a turn -/

/-- How a turn goes. Passing literal text never fails, neither up to the next opening marker nor
inside a range; only a range may be refused, because it is not closed. -/
inductive Goes (source : List Char) (b : Builder) (i : Cursor) : Turn → Prop
  /-- No opening marker is left. -/
  | text {opened : Cursor} :
      literalRun? i = some opened → opened.rest = [] →
        Goes source b i (.done (b.pushLiteral i opened))
  /-- The next opening marker is never closed. -/
  | unterminated {opened : Cursor} {b' : Builder} :
      literalRun? i = some opened → opened.rest ≠ [] → delimited? opened = none →
        (b.pushLiteral i opened).pushMalformed source opened (toEnd opened) .unterminated = .ok b' →
          Goes source b i (.done (b'.pushLiteral opened (toEnd opened)))
  /-- The range holds a further opening marker. -/
  | resync {opened behind inner : Cursor} {raw content : List Char} {n : ℕ} :
      literalRun? i = some opened → delimited? opened = some (behind, raw, content) →
        resync? raw = .ok (some n) → take? n opened = some inner →
          Goes source b i (.next ((b.pushLiteral i opened).pushLiteral opened inner) inner)
  /-- The range is written down. -/
  | range {opened behind : Cursor} {raw content : List Char} {b' : Builder} :
      literalRun? i = some opened → delimited? opened = some (behind, raw, content) →
        resync? raw = .ok none →
          (b.pushLiteral i opened).pushRange source opened behind raw content = .ok b' →
            Goes source b i (.next b' behind)

section Turns

variable {source : List Char} {b b' : Builder} {i j opened behind inner : Cursor}
  {raw content : List Char} {m : ℕ} {t : Turn}

/-- **No turn goes the way of a primitive that refuses to pass literal text.** -/
theorem goes_of_turn (h : turn source b i = .ok t) : Goes source b i t := by
  obtain ⟨opened, hopened⟩ := exists_literalRun? i
  simp only [turn, hopened] at h
  by_cases hrest : opened.rest = []
  · rw [if_pos hrest] at h
    obtain rfl := pure_eq_ok_iff.mp h
    exact .text hopened hrest
  · rw [if_neg hrest, Scanner.range] at h
    cases hdelimited : delimited? opened with
    | none =>
        simp only [hdelimited] at h
        obtain ⟨b', hreport, hdone⟩ := bind_eq_ok_iff.mp h
        obtain rfl := pure_eq_ok_iff.mp hdone
        exact .unterminated hopened hrest hdelimited hreport
    | some found =>
        obtain ⟨behind, raw, content⟩ := found
        simp only [hdelimited] at h
        obtain ⟨n?, hresync, h⟩ := bind_eq_ok_iff.mp h
        cases n? with
        | none =>
            obtain ⟨b', hpush, hnext⟩ := bind_eq_ok_iff.mp h
            obtain rfl := pure_eq_ok_iff.mp hnext
            exact .range hopened hdelimited hresync hpush
        | some n =>
            obtain ⟨inner, m, htaken, -, -⟩ := exists_resyncs_of_resync? hdelimited hresync
            simp only [htaken] at h
            obtain rfl := pure_eq_ok_iff.mp h
            exact .resync hopened hdelimited hresync htaken

/-- A turn that reads a range goes to the marker inside it or behind it. -/
theorem Goes.of_delimited? (h : Goes source b i t) (hrun : literalRun? i = some opened)
    (hdelimited : delimited? opened = some (behind, raw, content)) :
    (∃ n inner b', resync? raw = .ok (some n) ∧ take? n opened = some inner ∧
        t = .next b' inner) ∨
      ∃ b', resync? raw = .ok none ∧ t = .next b' behind := by
  cases h with
  | text hrun' hend =>
      obtain rfl := Option.some.inj (hrun.symm.trans hrun')
      obtain ⟨inside, hopen, -⟩ := Option.bind_eq_some_iff.mp hdelimited
      obtain ⟨rest, hrest⟩ := rest_of_tag? hopen
      rw [hend] at hrest
      cases hrest
  | unterminated hrun' hrest hnone hreport =>
      obtain rfl := Option.some.inj (hrun.symm.trans hrun')
      rw [hdelimited] at hnone
      cases hnone
  | resync hrun' hdelimited' hresync htaken =>
      obtain rfl := Option.some.inj (hrun.symm.trans hrun')
      rw [hdelimited, Option.some.injEq, Prod.mk.injEq, Prod.mk.injEq] at hdelimited'
      obtain ⟨rfl, rfl, rfl⟩ := hdelimited'
      exact .inl ⟨_, _, _, hresync, htaken, rfl⟩
  | range hrun' hdelimited' hresync hpush =>
      obtain rfl := Option.some.inj (hrun.symm.trans hrun')
      rw [hdelimited, Option.some.injEq, Prod.mk.injEq, Prod.mk.injEq] at hdelimited'
      obtain ⟨rfl, rfl, rfl⟩ := hdelimited'
      exact .inr ⟨_, hresync, rfl⟩

/-- A turn that reads a range with a further opening marker ends at that marker. -/
theorem Resyncs.turn (h : Resyncs opened behind inner raw m) (hrun : literalRun? i = some opened)
    (hdelimited : delimited? opened = some (behind, raw, content)) (hgoes : Goes source b i t) :
    ∃ b', t = .next b' inner := by
  obtain ⟨n, hresync, htaken⟩ := h.taken
  rcases hgoes.of_delimited? hrun hdelimited with
    ⟨n', inner', b', hresync', htaken', rfl⟩ | ⟨b', hresync', -⟩
  · obtain rfl := Option.some.inj (Except.ok.inj (hresync.symm.trans hresync'))
    obtain rfl := Option.some.inj (htaken.symm.trans htaken')
    exact ⟨b', rfl⟩
  · rw [hresync] at hresync'
    cases hresync'

/-- The turn after it ends behind the range. -/
theorem Resyncs.next_turn (h : Resyncs opened behind inner raw m) (hgoes : Goes source b inner t) :
    ∃ b', t = .next b' behind := by
  obtain ⟨raw', content', hdelimited, hresync⟩ := h.same_close
  rcases hgoes.of_delimited? h.no_literal hdelimited with
    ⟨n, inner', b', hresync', -, -⟩ | ⟨b', -, ht⟩
  · rw [hresync] at hresync'
    cases hresync'
  · exact ⟨b', ht⟩

/-- **A turn that does not end the scan moves the cursor on.** -/
theorem Goes.movesBy (h : Goes source b i (.next b' j)) : ∃ n, 0 < n ∧ i.MovesBy n j := by
  have hrun : ∀ {opened}, literalRun? i = some opened → ∃ n, i.MovesBy n opened := by
    intro opened hopened
    obtain ⟨n, rfl⟩ := skip_of_literalRun? hopened
    exact ⟨_, i.movesBy_skip n⟩
  cases h with
  | resync hopened hdelimited hresync htaken =>
      obtain ⟨k, hliteral⟩ := hrun hopened
      obtain ⟨inner, m, htaken', hm, hinner⟩ := exists_resyncs_of_resync? hdelimited hresync
      obtain rfl := Option.some.inj (htaken.symm.trans htaken')
      exact ⟨k + m, Nat.add_pos_right k hm, hliteral.trans hinner.moved⟩
  | range hopened hdelimited hresync hpush =>
      obtain ⟨k, hliteral⟩ := hrun hopened
      obtain ⟨n, hn, hbehind⟩ := movesBy_of_delimited? hdelimited
      exact ⟨k + n, Nat.add_pos_right k hn, hliteral.trans hbehind⟩

end Turns

/-! ### The loop -/

/-- The states the loop comes to, with the number of turns before them. -/
inductive Reached (source : String) : ℕ → Builder → Cursor → Prop
  /-- The loop begins with nothing written down and all of the text to scan. -/
  | start : Reached source 0 ⟨[], [], none⟩ ⟨.start, source.toList⟩
  /-- A turn is made as long as text is left. -/
  | next {k : ℕ} {b b' : Builder} {i j : Cursor} :
      Reached source k b i → i.rest ≠ [] → turn source.toList b i = .ok (.next b' j) →
        Reached source (k + 1) b' j

/-- The loop stops in a state with a scan: no text is left, or the turn from there ends it. -/
inductive Stops (source : String) (b : Builder) (i : Cursor) (s : Scan) : Prop
  | empty : i.rest = [] → b.finish source.toList = .ok s → Stops source b i s
  | done {b' : Builder} : i.rest ≠ [] → turn source.toList b i = .ok (.done b') →
      b'.finish source.toList = .ok s → Stops source b i s

namespace Reached

variable {source : String} {k : ℕ} {b b' : Builder} {i j : Cursor}

/-- In every state of the loop, what is written down, what is pending and what is left make up the
source, and lead to its scan. -/
theorem exists_ready (h : Reached source k b i) :
    ∃ written pending, Ready source.toList written pending b i ∧
      outcome written pending b i = scan source := by
  induction h with
  | start => exact ⟨[], [], ⟨rfl, rfl, rfl⟩, rfl⟩
  | next _ _ hturn ih =>
      obtain ⟨written, pending, hready, houtcome⟩ := ih
      have hleads := hready.turn_leads
      rw [hturn, houtcome] at hleads
      cases hleads with
      | next hready' houtcome' => exact ⟨_, _, hready', houtcome'⟩

/-- Every state of the loop is one of the run: going on from it gives what the run gives. -/
theorem loop_eq_run (h : Reached source k b i) : loop source.toList b i = run source := by
  induction h with
  | start => rfl
  | next _ hrest hturn ih => rw [← ih, loop_next hrest hturn]

/-- Every turn of the loop leads to the scan of the text. -/
theorem leads (h : Reached source k b i) :
    Leads source.toList (scan source) (turn source.toList b i) := by
  obtain ⟨written, pending, hready, houtcome⟩ := h.exists_ready
  rw [← houtcome]
  exact hready.turn_leads

/-- **Every turn of the loop succeeds.** -/
theorem exists_turn (h : Reached source k b i) :
    ∃ t, turn source.toList b i = .ok t ∧ Goes source.toList b i t := by
  have hleads := h.leads
  cases hturn : turn source.toList b i with
  | error fault =>
      rw [hturn] at hleads
      cases hleads
  | ok t => exact ⟨t, rfl, goes_of_turn hturn⟩

/-- Every turn has passed a byte of the text at least. -/
theorem add_byteSize_le (h : Reached source k b i) :
    k + byteSize i.rest ≤ byteSize source.toList := by
  induction h with
  | start => rw [Nat.zero_add]
  | next _ _ hturn ih =>
      obtain ⟨n, hn, hmoves⟩ := (goes_of_turn hturn).movesBy
      have hsize := hmoves.byteSize_rest
      omega

/-- **The loop stops**, and with the scan of the text, wherever it has come to. -/
theorem exists_stops (h : Reached source k b i) :
    ∃ k' b' i', Reached source k' b' i' ∧ Stops source b' i' (scan source) := by
  induction b, i using loop.induct source.toList generalizing k with
  | case1 b i hrest =>
      obtain ⟨written, pending, hready, houtcome⟩ := h.exists_ready
      have hloop := loop_eq hready
      rw [loop, if_pos hrest, houtcome] at hloop
      exact ⟨k, b, i, h, .empty hrest hloop⟩
  | case2 b i hrest fault hturn =>
      have hleads := h.leads
      rw [hturn] at hleads
      cases hleads
  | case3 b i hrest b' hturn =>
      have hleads := h.leads
      rw [hturn] at hleads
      cases hleads with
      | done hfinish => exact ⟨k, b, i, h, .done hrest hturn hfinish⟩
  | case4 b i hrest b' j hturn ih => exact ih (.next h hrest hturn)

end Reached

end Scanner

/-- **The scanner arrives exactly at the marker inside a range, and always comes to an end.** Every
turn of the loop succeeds, and passing literal text never fails in it. In a range that is read, let
the last opening marker before the closing one stand at a byte offset; if the offset is not zero,
the turn moves by that many bytes onto the marker, and the next turn passes no literal text, reads
the range up to the same closing marker and ends behind it. Every turn that does not end the loop
leaves a shorter rest of the text, so that there are no more turns than bytes, and the loop stops,
with the scan of the text. -/
theorem resynchronization_is_exact (source : String) :
    (∀ k b i, Scanner.Reached source k b i → i.rest ≠ [] →
      Scanner.loop source.toList b i = Scanner.run source ∧
      ∃ t, Scanner.turn source.toList b i = .ok t ∧ Scanner.Goes source.toList b i t) ∧
    (∀ k b i opened behind raw content, Scanner.Reached source k b i → i.rest ≠ [] →
      Scanner.literalRun? i = some opened →
      Scanner.delimited? opened = some (behind, raw, content) →
      ∃ opening m, raw = opening ++ ['}', '}'] ∧ LastPairAt '{' opening m ∧
        Scanner.lastOpen? opening = some m ∧
        (m = 0 → Scanner.resync? raw = .ok none) ∧
        (0 < m → ∃ inner b' b'', Scanner.Resyncs opened behind inner raw m ∧
          Scanner.turn source.toList b i = .ok (.next b' inner) ∧
          Scanner.turn source.toList b' inner = .ok (.next b'' behind))) ∧
    (∀ k b i b' j, Scanner.Reached source k b i →
      Scanner.turn source.toList b i = .ok (.next b' j) →
      j.rest <:+ i.rest ∧ byteSize j.rest < byteSize i.rest) ∧
    (∀ k b i, Scanner.Reached source k b i → k ≤ source.utf8ByteSize) ∧
    (∃ k b i, Scanner.Reached source k b i ∧ Scanner.Stops source b i (scan source)) ∧
    Scanner.run source = .ok (scan source) := by
  refine ⟨?_, ?_, ?_, ?_, Scanner.Reached.start.exists_stops, Scanner.run_eq_scan source⟩
  · intro k b i hreached _
    exact ⟨hreached.loop_eq_run, hreached.exists_turn⟩
  · intro k b i opened behind raw content hreached hrest hrun hdelimited
    obtain ⟨opening, m, hraw, hlast, hzero, hpos⟩ := Scanner.exists_resyncs hdelimited
    refine ⟨opening, m, hraw, hlast, Scanner.lastOpen?_eq_some_iff.mpr hlast, hzero, fun hm => ?_⟩
    obtain ⟨inner, hinner⟩ := hpos hm
    obtain ⟨t, hturn, hgoes⟩ := hreached.exists_turn
    obtain ⟨b', rfl⟩ := hinner.turn hrun hdelimited hgoes
    obtain ⟨t', hturn', hgoes'⟩ := (hreached.next hrest hturn).exists_turn
    obtain ⟨b'', rfl⟩ := hinner.next_turn hgoes'
    exact ⟨inner, b', b'', hinner, hturn, hturn'⟩
  · intro k b i b' j _ hturn
    obtain ⟨n, hn, hmoves⟩ := (Scanner.goes_of_turn hturn).movesBy
    have hsize := hmoves.byteSize_rest
    exact ⟨hmoves.suffix, by omega⟩
  · intro k b i hreached
    have hle := hreached.add_byteSize_le
    rw [byteSize_toList] at hle
    omega

/-- A range with characters of two bytes each before the marker inside it. -/
def wideText : String := "\x7b\x7bäö\x7b\x7bA:k\x7d\x7d"

/-- The first turn passes four characters, which are six bytes, and the second one all that is
left. -/
theorem marker_behind_wide_characters_is_reached :
    ∃ inner b' b'' behind,
      Scanner.turn wideText.toList ⟨[], [], none⟩ ⟨.start, wideText.toList⟩ =
        .ok (.next b' inner) ∧
      Scanner.take? 4 ⟨.start, wideText.toList⟩ = some inner ∧ inner.position.offset = 6 ∧
      Scanner.turn wideText.toList b' inner = .ok (.next b'' behind) ∧ behind.rest = [] := by
  have htext : wideText.toList = ['{', '{', 'ä', 'ö', '{', '{', 'A', ':', 'k'] ++ ['}', '}'] := by
    decide +kernel
  have hmarker : ¬ HasPair '{' ([] ++ ['{']) := not_hasPair_singleton _ _
  have hrun : Scanner.literalRun? ⟨.start, wideText.toList⟩ = some ⟨.start, wideText.toList⟩ := by
    rw [htext]
    exact Scanner.literalRun?_of_open hmarker
  have hdelimited : Scanner.delimited? ⟨.start, wideText.toList⟩ =
      some (⟨Position.start.advance wideText.toList, []⟩, wideText.toList,
        ['ä', 'ö', '{', '{', 'A', ':', 'k']) :=
    Scanner.delimited?_eq_some_iff.mpr ⟨[], htext, by decide, htext, rfl⟩
  have hlast : Scanner.lastOpen? ['{', '{', 'ä', 'ö', '{', '{', 'A', ':', 'k'] = some 6 := by
    decide +kernel
  have hcount : Scanner.resync? wideText.toList = .ok (some 4) := by decide +kernel
  obtain ⟨-, hresyncs, -⟩ := resynchronization_is_exact wideText
  obtain ⟨opening, m, hraw, -, hopen, -, hpos⟩ :=
    hresyncs 0 _ _ _ _ _ _ .start (by simp [htext]) hrun hdelimited
  obtain rfl := List.append_cancel_right (htext.symm.trans hraw)
  obtain rfl := Option.some.inj (hlast.symm.trans hopen)
  obtain ⟨inner, b', b'', hinner, hturn, hturn'⟩ := hpos (by decide)
  obtain ⟨n, hresync, htaken⟩ := hinner.taken
  obtain rfl := Option.some.inj (Except.ok.inj (hcount.symm.trans hresync))
  exact ⟨inner, b', b'', _, hturn, htaken, hinner.moved.offset_eq, hturn', rfl⟩

end LinkExpr
