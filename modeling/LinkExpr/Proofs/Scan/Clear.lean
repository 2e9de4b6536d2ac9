import LinkExpr.Proofs.Scan.Placement
import LinkExpr.Proofs.Scan.Tidy

/-!
# Clear Texts

A text is clear if its literal text has no opening marker. Other than in a tidy text, single braces
may stand anywhere, also right before a placeholder and right behind one.

A clear text is literal text and placeholders in turns (`Interleaved`), and this is how it is
scanned, whatever braces the literal text ends with. When values without braces take the place of
some of the placeholders, literal text and values grow together. No marker appears where they meet,
since a value that is not empty keeps the braces on its sides apart. So the text stays clear, and
what a scan makes of it can be told from the scan of the text that it was.

## Main results

* `segments_placeholder`: text without a marker ends where the placeholder behind it begins.
* `clear_iff`: clear texts are literal text and placeholders in turns.
* `Interleaved.fill`: values in place of placeholders leave a clear text.
* `Interleaved.flatMap_segments_fill`: the segments of a text with values.
-/

namespace LinkExpr

/-- The literal text has no opening marker. -/
def Clear (source : String) : Prop :=
  ∀ token ∈ (scan source).tokens, token.placeholder? = none → ¬ HasPair '{' token.raw.toList

instance (source : String) : Decidable (Clear source) :=
  inferInstanceAs (Decidable (∀ token ∈ (scan source).tokens,
    token.placeholder? = none → ¬ HasPair '{' token.raw.toList))

/-- Literal text without an opening marker and placeholders, in turns. -/
inductive Interleaved : List Char → Prop
  | text {cs : List Char} : ¬ HasPair '{' cs → Interleaved cs
  | placeholder {lead body after : List Char} {name : Name} :
      ¬ HasPair '{' lead → CleanBody body → readBody body = .ok name → Interleaved after →
        Interleaved (lead ++ '{' :: '{' :: (body ++ '}' :: '}' :: after))

section Segments

variable {lead body cs a b : List Char} {name : Name} {x : Segment}

/-- If a brace comes before a body, the body is still the innermost one. -/
theorem innermost_brace (h : ¬ HasPair '{' ('{' :: body)) :
    innermost ('{' :: body) = (['{'], body) := by
  obtain ⟨hcut, hbody⟩ := innermost_spec ('{' :: body)
  obtain ⟨hskipped, hinner⟩ := last_pair_unique (a := ['{']) hcut h hbody
  exact Prod.ext hskipped.symm hinner.symm

/-- **Text without an opening marker ends where the range behind it begins**, even if the text ends
with a brace and the first marker begins there. -/
theorem segments_placeholder (hlead : ¬ HasPair '{' lead) (hclean : CleanBody body)
    (after : List Char) :
    segments (lead ++ '{' :: '{' :: (body ++ '}' :: '}' :: after)) =
      .text lead :: .delimited body :: segments after := by
  obtain ⟨hopen, hclose⟩ := hclean
  by_cases hlast : lead.getLast? = some '{'
  · -- the first marker begins with the last brace of the text and leaves a brace before the body
    obtain ⟨front, rfl⟩ := List.getLast?_eq_some_iff.mp hlast
    have hmoved : ¬ HasPair '}' (('{' :: body) ++ ['}']) :=
      not_hasPair_append (a := ['{']) (not_hasPair_singleton _ _) hclose fun h => by cases h
    have hrange := segments_of_close hmoved after
    obtain ⟨skipped, ss, hmarker, htext⟩ :=
      segments_open hlead (('{' :: body) ++ '}' :: '}' :: after)
    rw [hrange, innermost_brace hopen, List.cons.injEq, Segment.text.injEq] at hmarker
    obtain ⟨rfl, rfl⟩ := hmarker
    rw [← htext]
    simp
  · have hfirst : ¬ HasPair '{' (lead ++ ['{']) :=
      not_hasPair_append hlead (not_hasPair_singleton _ _) fun h => absurd h hlast
    have hrange := segments_of_cleanBody ⟨hopen, hclose⟩ after
    obtain ⟨skipped, ss, hmarker, htext⟩ := segments_open hfirst (body ++ '}' :: '}' :: after)
    rw [hrange, List.cons.injEq, Segment.text.injEq] at hmarker
    obtain ⟨rfl, rfl⟩ := hmarker
    rw [htext, List.append_nil]

end Segments

/-! ### Clear texts -/

section Clear

variable {cs a b : List Char} {ss : List Segment} {source : String}

theorem segments_of_not_hasPair (h : ¬ HasPair '{' cs) : segments cs = [.text cs] :=
  segments_of_no_open (splitAtPair?_eq_none_iff.mpr h)

/-- A malformed segment leaves a marker in some literal text. -/
theorem exists_literal_of_malformed {x : Segment} {fault : Fault}
    (hreads : x.reading? = some (.error fault)) (pending : List Char) (ss : List Segment) :
    ∃ chars, .literal chars ∈ Piece.merge pending (x :: ss) ∧ HasPair '{' chars := by
  have hmarker : ∃ rest, x.raw = '{' :: '{' :: rest := by
    cases x with
    | text chars => cases hreads
    | delimited body | unterminated rest => exact ⟨_, rfl⟩
  obtain ⟨rest, hraw⟩ := hmarker
  have hne : pending ++ x.raw ≠ [] := by
    rw [hraw]
    simp
  obtain ⟨more, back, hmerge⟩ := Piece.exists_merge_eq_cons hne ss
  refine ⟨pending ++ x.raw ++ more, ?_, pending, rest ++ more, ?_⟩
  · rw [Piece.merge_malformed hreads, hmerge]
    exact List.mem_cons_self
  · rw [hraw]
    simp

/-- Literal text that is a piece if there is any has no marker, if no literal piece has one. -/
theorem not_hasPair_of_ofLiteral (h : ∀ chars, .literal chars ∈ Piece.ofLiteral cs →
    ¬ HasPair '{' chars) : ¬ HasPair '{' cs := by
  by_cases hnil : cs = []
  · rw [hnil]
    exact not_hasPair_nil _
  · exact h cs (Piece.mem_ofLiteral_iff.mpr ⟨hnil, rfl⟩)

/-- If no literal text between the placeholders has a marker, the text is literal text and
placeholders in turns. The literal text before it counts as well. -/
theorem Segmented.interleaved (h : Segmented cs ss) {pending : List Char}
    (hfree : ∀ chars, .literal chars ∈ Piece.merge pending ss → ¬ HasPair '{' chars) :
    Interleaved (pending ++ cs) := by
  induction h generalizing pending with
  | text _ =>
      rw [Piece.merge_text] at hfree
      exact .text (not_hasPair_of_ofLiteral hfree)
  | @unterminated before rest _ _ =>
      obtain ⟨chars, hmem, hpair⟩ :=
        exists_literal_of_malformed (x := .unterminated rest) rfl (pending ++ before) []
      exact absurd hpair (hfree chars hmem)
  | @range lead body after ss hbody hquiet _ ih =>
      rw [Piece.merge_text] at hfree
      cases hreads : readBody body with
      | error fault =>
          obtain ⟨chars, hmem, hpair⟩ := exists_literal_of_malformed (x := .delimited body)
            (congrArg some hreads) (pending ++ lead) ss
          exact absurd hpair (hfree chars hmem)
      | ok name =>
          rw [Piece.merge_placeholder (x := .delimited body) (congrArg some hreads)] at hfree
          have hlead : ¬ HasPair '{' (pending ++ lead) :=
            not_hasPair_of_ofLiteral fun chars hmem => hfree chars (List.mem_append_left _ hmem)
          have hafter : Interleaved ([] ++ after) := ih fun chars hmem =>
            hfree chars (List.mem_append_right _ (List.mem_cons_of_mem _ hmem))
          rw [← List.append_assoc]
          exact .placeholder hlead ⟨hbody, hquiet lead body rfl⟩ hreads hafter

/-- In turns, literal text stays as it is. -/
theorem Interleaved.not_hasPair_of_mem (h : Interleaved cs) {chars : List Char}
    (hmem : .literal chars ∈ Piece.merge [] (segments cs)) : ¬ HasPair '{' chars := by
  induction h with
  | text hfree =>
      rw [segments_of_not_hasPair hfree, Piece.merge_text, Piece.merge,
        Piece.mem_ofLiteral_iff] at hmem
      obtain ⟨-, hchars⟩ := hmem
      obtain rfl := Piece.literal.inj hchars
      exact hfree
  | @placeholder lead body after name hlead hclean hreads _ ih =>
      rw [segments_placeholder hlead hclean, Piece.merge_text,
        Piece.merge_placeholder (x := .delimited body) (congrArg some hreads), List.mem_append,
        List.mem_cons, Piece.mem_ofLiteral_iff] at hmem
      rcases hmem with ⟨-, hchars⟩ | hplaceholder | hafter
      · obtain rfl := Piece.literal.inj hchars
        exact hlead
      · cases hplaceholder
      · exact ih hafter

/-- A text is clear if the literals among its pieces have no marker. -/
theorem clear_iff_pieces : Clear source ↔
    ∀ chars, .literal chars ∈ pieces source → ¬ HasPair '{' chars := by
  constructor
  · intro h chars hmem
    rw [← Span.map_fst_layout Piece.raw .start (pieces source), List.mem_map] at hmem
    obtain ⟨⟨_, span⟩, hplaced, rfl⟩ := hmem
    have hfree := h _ (mem_tokens_iff.mpr ⟨_, span, hplaced, rfl⟩) rfl
    rwa [Token.raw_ofPiece, String.toList_ofList] at hfree
  · intro h token htoken hliteral
    obtain ⟨piece, span, hplaced, rfl⟩ := mem_tokens_iff.mp htoken
    cases piece with
    | placeholder name chars => cases hliteral
    | literal chars =>
        rw [Token.raw_ofPiece, String.toList_ofList]
        refine h chars ?_
        rw [← Span.map_fst_layout Piece.raw .start (pieces source), List.mem_map]
        exact ⟨_, hplaced, rfl⟩

/-- **Clear texts are literal text and placeholders in turns.** -/
theorem clear_iff : Clear source ↔ Interleaved source.toList := by
  rw [clear_iff_pieces, pieces]
  constructor
  · intro h
    exact (segmented_segments source.toList).interleaved h
  · intro h chars hmem
    exact h.not_hasPair_of_mem hmem

end Clear

/-! ### Values in place of placeholders -/

/-- A text with values in place of the placeholders that have one. -/
def filled (value? : Name → Option (List Char)) (cs : List Char) : List Char :=
  (segments cs).flatMap (Segment.replace fun name raw => (value? name).getD raw)

section Fill

variable {β : Type} {lead body after value cs a b : List Char} {name : Name} {x : Segment}
  {value? : Name → Option (List Char)} {f : Segment → List β}

/-- A clear text is not malformed. -/
theorem Interleaved.fault?_eq_none (h : Interleaved cs) (hx : x ∈ segments cs) :
    x.fault? = none := by
  induction h with
  | text hfree =>
      rw [segments_of_not_hasPair hfree, List.mem_singleton] at hx
      rw [hx]
      rfl
  | placeholder hlead hclean hreads _ ih =>
      rw [segments_placeholder hlead hclean, List.mem_cons, List.mem_cons] at hx
      rcases hx with rfl | rfl | hafter
      · rfl
      · rw [Segment.fault?, Segment.reading?, hreads]
      · exact ih hafter

/-- Literal text may be put in front if no marker begins at its end. -/
theorem Interleaved.text_append (h : Interleaved b) (hfree : ¬ HasPair '{' a)
    (hlast : a.getLast? ≠ some '{') : Interleaved (a ++ b) := by
  have hseam : ∀ {cs : List Char}, ¬ HasPair '{' cs → ¬ HasPair '{' (a ++ cs) :=
    fun hcs => not_hasPair_append hfree hcs fun h => absurd h hlast
  cases h with
  | text hb => exact .text (hseam hb)
  | placeholder hlead hclean hreads hafter =>
      rw [← List.append_assoc]
      exact .placeholder (hseam hlead) hclean hreads hafter

theorem name?_delimited (hreads : readBody body = .ok name) :
    (Segment.delimited body).name? = some name :=
  Segment.name?_eq_some_iff.mpr (congrArg some hreads)

theorem filled_of_not_hasPair (h : ¬ HasPair '{' cs) : filled value? cs = cs := by
  rw [filled, segments_of_not_hasPair h, List.flatMap_singleton]
  rfl

theorem filled_placeholder (hlead : ¬ HasPair '{' lead) (hclean : CleanBody body)
    (hreads : readBody body = .ok name) :
    filled value? (lead ++ '{' :: '{' :: (body ++ '}' :: '}' :: after)) =
      lead ++ ((value? name).getD (Segment.delimited body).raw ++ filled value? after) := by
  rw [filled, segments_placeholder hlead hclean, List.flatMap_cons, List.flatMap_cons,
    Segment.replace, Segment.replace, name?_delimited hreads]
  rfl

/-- A text is filled with nothing if no placeholder has a value. -/
theorem filled_none (cs : List Char) : filled (fun _ => none) cs = cs := by
  have hkept : ∀ x : Segment, x.replace (fun _ raw => raw) = x.raw := by
    intro x
    rw [Segment.replace]
    cases x.name? <;> rfl
  conv_rhs => rw [← raw_segments cs]
  exact List.flatMap_congr fun x _ => hkept x

/-- A placeholder that stays is the same range in front of whatever follows. -/
theorem append_raw_append (lead body after : List Char) :
    lead ++ ((Segment.delimited body).raw ++ after) =
      lead ++ '{' :: '{' :: (body ++ '}' :: '}' :: after) := by
  simp [Segment.raw]

/-- A value without braces, behind literal text, is literal text that no marker begins at the end
of. -/
theorem not_hasPair_append_value (hlead : ¬ HasPair '{' lead)
    (hvalue : value ≠ [] ∧ '{' ∉ value) :
    ¬ HasPair '{' (lead ++ value) ∧ (lead ++ value).getLast? ≠ some '{' := by
  obtain ⟨hne, hbrace⟩ := hvalue
  constructor
  · refine not_hasPair_append hlead (fun hpair => hbrace ?_) fun _ hhead => hbrace ?_
    · exact hpair.subset List.mem_cons_self
    · exact List.mem_of_mem_head? hhead
  · rw [List.getLast?_append_of_ne_nil _ hne]
    exact fun h => hbrace (List.mem_of_getLast? h)

variable (hvalues : ∀ name value, value? name = some value → value ≠ [] ∧ '{' ∉ value)
include hvalues

/-- **Values in place of placeholders leave a clear text**: literal text and placeholders in
turns. -/
theorem Interleaved.filled (h : Interleaved cs) : Interleaved (filled value? cs) := by
  induction h with
  | text hfree =>
      rw [filled_of_not_hasPair hfree]
      exact .text hfree
  | @placeholder lead body after name hlead hclean hreads _ ih =>
      rw [filled_placeholder hlead hclean hreads]
      cases hvalue : value? name with
      | none =>
          rw [Option.getD_none, append_raw_append]
          exact .placeholder hlead hclean hreads ih
      | some value =>
          -- the value becomes part of the literal text up to the next placeholder
          obtain ⟨hfree, hlast⟩ := not_hasPair_append_value hlead (hvalues name value hvalue)
          rw [Option.getD_some, ← List.append_assoc]
          exact ih.text_append hfree hlast

/-- **What can be told of a text with values** without regard to where literal text is cut is told
of the segments of the text before, with the values as literal text. -/
theorem Interleaved.flatMap_segments_filled (h : Interleaved cs)
    (hf : ∀ x y, f (.text (x ++ y)) = f (.text x) ++ f (.text y)) :
    (segments (LinkExpr.filled value? cs)).flatMap f =
      (segments cs).flatMap fun x =>
        match x.name?.bind value? with
        | some value => f (.text value)
        | none => f x := by
  induction h with
  | text hfree =>
      rw [filled_of_not_hasPair hfree, segments_of_not_hasPair hfree, List.flatMap_singleton,
        List.flatMap_singleton]
      rfl
  | @placeholder lead body after name hlead hclean hreads _ ih =>
      rw [filled_placeholder hlead hclean hreads, segments_placeholder hlead hclean,
        List.flatMap_cons, List.flatMap_cons, name?_delimited hreads, Option.bind_some]
      cases hvalue : value? name with
      | none =>
          rw [Option.getD_none, append_raw_append, segments_placeholder hlead hclean,
            List.flatMap_cons, List.flatMap_cons, ih]
          rfl
      | some value =>
          obtain ⟨hfree, hlast⟩ := not_hasPair_append_value hlead (hvalues name value hvalue)
          have htext := segments_of_not_hasPair hfree
          have hclosed : ∀ rest, .unterminated rest ∉ segments (lead ++ value) := by
            intro rest hmem
            rw [htext, List.mem_singleton] at hmem
            cases hmem
          rw [Option.getD_some, ← List.append_assoc,
            flatMap_segments_append hf hclosed fun h => absurd h hlast, htext, ih,
            List.flatMap_singleton, hf, List.append_assoc]
          rfl

end Fill

end LinkExpr
