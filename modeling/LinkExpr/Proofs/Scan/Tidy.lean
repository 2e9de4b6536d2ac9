import LinkExpr.Proofs.Scan.Concatenation

/-!
# Tidy Texts

A text is tidy if all its opening braces belong to placeholders. Then nothing in it is malformed,
no marker begins at its end, and tidy texts may be put together: the placeholders of the whole are
those of the parts, one after the other.

What is written when something else takes the place of every placeholder (`replaced`) can be said
of the tokens of a text and of its segments. The tokens are what an expansion goes through, but
where a literal begins and ends depends on all text around it; the segments are what is known of
texts that are put together.

## Main results

* `flatMap_replace_tokens`: replacing in the tokens is replacing in the segments.
* `tidy_iff`: a text is tidy exactly if nothing is left of its braces without its placeholders.
* `Tidy.replaced_append`: placeholders are replaced in one tidy text after the other.
* `Tidy.append`, `Tidy.join`: tidy texts put together are tidy.
* `tidy_of_not_mem`, `tidy_raw`, `Tidy.raw_of_mem_tokens`: the tokens of a tidy text are tidy.
-/

namespace LinkExpr

/-! ### Replacing placeholders -/

/-- A segment with something else in place of a placeholder. -/
def Segment.replace (f : Name → List Char → List Char) (x : Segment) : List Char :=
  match x.name? with
  | some name => f name x.raw
  | none => x.raw

/-- A piece with something else in place of a placeholder. -/
def Piece.replace (f : Name → List Char → List Char) : Piece → List Char
  | literal chars => chars
  | placeholder name chars => f name chars

/-- A token with something else in place of a placeholder. -/
def Token.replace (f : Name → List Char → List Char) : Token → List Char
  | literal text _ => text.toList
  | placeholder p => f p.name p.raw.toList

/-- A text with something else in place of every placeholder. -/
def replaced (f : Name → List Char → List Char) (source : String) : List Char :=
  (segments source.toList).flatMap (Segment.replace f)

variable {f : Name → List Char → List Char}

@[simp] theorem Token.replace_ofPiece (x : Piece × Span) :
    (ofPiece x).replace f = x.1.replace f := by
  obtain ⟨piece, span⟩ := x
  cases piece <;> simp [ofPiece, Token.replace, Piece.replace]

/-- Merging literal text does not matter for what is replaced. -/
theorem Piece.flatMap_replace_merge (pending : List Char) (ss : List Segment) :
    (merge pending ss).flatMap (replace f) = pending ++ ss.flatMap (Segment.replace f) := by
  have hpending : ∀ chars, (ofLiteral chars).flatMap (replace f) = chars := by
    intro chars
    rw [ofLiteral]
    split <;> simp_all [replace]
  induction ss generalizing pending with
  | nil => simp [merge, hpending]
  | cons s rest ih =>
      rw [merge]
      cases hname : s.name? with
      | some name => simp [hpending, ih, replace, Segment.replace, hname]
      | none => simp [ih, Segment.replace, hname]

/-- **Replacing in the tokens of a text is replacing in its segments.** -/
theorem flatMap_replace_tokens (source : String) :
    (scan source).tokens.flatMap (Token.replace f) = replaced f source := by
  simp only [scan, List.flatMap_map, Token.replace_ofPiece]
  rw [← List.flatMap_map Prod.fst (Piece.replace f), Span.map_fst_layout, pieces,
    Piece.flatMap_replace_merge, List.nil_append, replaced]

/-! ### Tidy texts -/

/-- Every opening brace of a text belongs to a placeholder. -/
def Tidy (source : String) : Prop :=
  ∀ token ∈ (scan source).tokens, token.placeholder? = none → '{' ∉ token.raw.toList

instance (source : String) : Decidable (Tidy source) :=
  inferInstanceAs (Decidable (∀ token ∈ (scan source).tokens,
    token.placeholder? = none → '{' ∉ token.raw.toList))

/-- **A text is tidy exactly if nothing is left of its braces without its placeholders.** -/
theorem tidy_iff {source : String} : Tidy source ↔ '{' ∉ replaced (fun _ _ => []) source := by
  rw [← flatMap_replace_tokens, List.mem_flatMap]
  constructor
  · rintro h ⟨token, htoken, hbrace⟩
    cases token with
    | literal text span => exact h _ htoken rfl hbrace
    | placeholder p => cases hbrace
  · intro h token htoken hliteral hbrace
    cases token with
    | literal text span => exact h ⟨_, htoken, hbrace⟩
    | placeholder p => cases hliteral

/-- Text without an opening brace is tidy. -/
theorem tidy_of_not_mem {source : String} (h : '{' ∉ source.toList) : Tidy source := by
  have hfree : ¬ HasPair '{' source.toList := by
    rintro ⟨before, after, hpair⟩
    exact h (hpair ▸ by simp)
  rw [tidy_iff, replaced, segments_of_no_open (splitAtPair?_eq_none_iff.mpr hfree)]
  simpa [Segment.replace, Segment.name?, Segment.reading?, Segment.raw] using h

/-- A placeholder alone is a tidy text. -/
theorem tidy_raw {source : String} {p : Placeholder} (h : p ∈ placeholders source) :
    Tidy p.raw := by
  rw [Tidy, scan_raw h]
  intro token htoken hliteral
  obtain rfl := List.mem_singleton.mp htoken
  cases hliteral

namespace Tidy

variable {a b source : String}

/-- What is not part of a placeholder of a tidy text has no opening brace. -/
theorem not_mem_raw (h : Tidy a) {x : Segment} (hx : x ∈ segments a.toList)
    (hname : x.name? = none) : '{' ∉ x.raw := by
  intro hbrace
  refine tidy_iff.mp h (List.mem_flatMap.mpr ⟨x, hx, ?_⟩)
  rwa [Segment.replace, hname]

/-- A tidy text is not unterminated. -/
theorem closed (h : Tidy a) (rest : List Char) : .unterminated rest ∉ segments a.toList :=
  fun hmem => h.not_mem_raw hmem rfl List.mem_cons_self

/-- No marker begins at the end of a tidy text. -/
theorem getLast?_ne (h : Tidy a) : a.toList.getLast? ≠ some '{' := by
  have hsegments : ∀ ss : List Segment, (∀ x ∈ ss, x.raw.getLast? ≠ some '{') →
      (ss.flatMap Segment.raw).getLast? ≠ some '{' := by
    intro ss hss
    induction ss with
    | nil => simp
    | cons x ss ih =>
        rw [List.flatMap_cons, List.getLast?_append, Ne, Option.or_eq_some_iff, not_or]
        refine ⟨ih fun y hy => hss y (List.mem_cons_of_mem _ hy), fun hlast => ?_⟩
        exact hss x List.mem_cons_self hlast.2
  rw [← raw_segments a.toList]
  refine hsegments _ fun x hx hlast => ?_
  cases hname : x.name? with
  | none => exact h.not_mem_raw hx hname (List.mem_of_getLast? hlast)
  | some name =>
      cases x with
      | text chars | unterminated rest => cases hname
      | delimited body => simp [Segment.raw, List.getLast?_cons] at hlast

/-- What does not depend on where literal text is cut can be read off a tidy text and whatever
comes after it. -/
theorem flatMap_segments (h : Tidy a) (b : String) {β : Type} {g : Segment → List β}
    (hg : ∀ x y, g (.text (x ++ y)) = g (.text x) ++ g (.text y)) :
    (segments (a ++ b).toList).flatMap g =
      (segments a.toList).flatMap g ++ (segments b.toList).flatMap g := by
  rw [String.toList_append]
  exact flatMap_segments_append hg h.closed fun hlast => absurd hlast h.getLast?_ne

/-- **Placeholders are replaced in one text after the other**, if the first one is tidy. -/
theorem replaced_append (h : Tidy a) (b : String) :
    replaced f (a ++ b) = replaced f a ++ replaced f b :=
  h.flatMap_segments b fun _ _ => rfl

/-- Tidy texts put together are tidy. -/
theorem append (ha : Tidy a) (hb : Tidy b) : Tidy (a ++ b) := by
  rw [tidy_iff, ha.replaced_append, List.mem_append, not_or]
  exact ⟨tidy_iff.mp ha, tidy_iff.mp hb⟩

theorem join {texts : List String} (h : ∀ text ∈ texts, Tidy text) : Tidy (String.join texts) := by
  induction texts with
  | nil => exact tidy_of_not_mem List.not_mem_nil
  | cons text texts ih =>
      rw [String.join_cons]
      exact (h text List.mem_cons_self).append
        (ih fun other hother => h other (List.mem_cons_of_mem _ hother))

/-- The tokens of a tidy text are tidy. -/
theorem raw_of_mem_tokens (h : Tidy source) {token : Token}
    (htoken : token ∈ (scan source).tokens) : Tidy token.raw := by
  cases token with
  | literal text span => exact tidy_of_not_mem (h _ htoken rfl)
  | placeholder p =>
      have hp : p ∈ placeholders source := List.mem_filterMap.mpr ⟨_, htoken, rfl⟩
      exact tidy_raw hp

/-- A tidy text is made of tidy texts. -/
theorem of_mem_map_raw (h : Tidy source) {text : String}
    (htext : text ∈ (scan source).tokens.map Token.raw) : Tidy text := by
  obtain ⟨token, htoken, rfl⟩ := List.mem_map.mp htext
  exact h.raw_of_mem_tokens htoken

end Tidy

end LinkExpr
