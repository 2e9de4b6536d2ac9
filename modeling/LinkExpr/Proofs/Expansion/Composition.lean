import LinkExpr.Proofs.Expansion.Expander
import LinkExpr.Proofs.Expansion.Levels
import LinkExpr.Proofs.Scan.Concatenation

/-!
# Expansions Are Put Together

What a placeholder of a text expands to is what it expands to alone, in a text of its own. Only the
place of the placeholder is lost on the way: where it is reported itself, and not something in its
value, the report is moved to the place that it has in the text.

So the expansion of a text is put together from expansions of its tokens, and no token depends on
those before or after it. The expander shows the same in its steps: whatever it has written down
and whatever is still to come, it handles a token of the text by adding what the token expands to
alone, and the names that were active are active again.

## Main results

* `expandToDepth_raw`: a placeholder alone expands as its token does.
* `expandAlone_eq`: what a token contributes can be said of the token alone.
* `runs_expandAlone`: the expander handles a token as if it were alone.
* `expansion_is_compositional`: the text, the placeholders left and the reports of an expansion.
-/

namespace LinkExpr

/-! ### Moving reports -/

/-- A placeholder that is left, at another place of the text. One that stands in a value has no
place in the text and is not moved. -/
def Unresolved.movedTo (span : Span) (u : Unresolved) : Unresolved :=
  if u.via = none then { u with span } else u

/-- An expansion whose text is moved to another place. -/
def Expansion.movedTo (span : Span) (e : Expansion) : Expansion :=
  { e with unresolved := e.unresolved.map (·.movedTo span) }

@[simp] theorem Expansion.text_movedTo (span : Span) (e : Expansion) :
    (e.movedTo span).text = e.text := rfl

@[simp] theorem Expansion.unresolved_movedTo (span : Span) (e : Expansion) :
    (e.movedTo span).unresolved = e.unresolved.map (·.movedTo span) := rfl

@[simp] theorem Expansion.errors_movedTo (span : Span) (e : Expansion) :
    (e.movedTo span).errors = e.errors := rfl

/-- If everything that is left stands in values, nothing is moved. -/
theorem Expansion.movedTo_eq_self {span : Span} {e : Expansion}
    (h : ∀ u ∈ e.unresolved, u.via ≠ none) : e.movedTo span = e := by
  have hmap : e.unresolved.map (·.movedTo span) = e.unresolved := by
    conv_rhs => rw [← List.map_id e.unresolved]
    exact List.map_congr_left fun u hu => if_neg (h u hu)
  rw [Expansion.movedTo, hmap]

/-- A token expanded alone: literal text is copied, and a placeholder is expanded in a text of its
own and moved to where it is. -/
def Token.expandAlone (expand : String → Expansion) : Token → Expansion
  | .literal text _ => .ofText text
  | .placeholder p => (expand p.raw).movedTo p.span

/-! ### Tokens alone -/

section Alone

variable {lookup : Name → Resolution} {depth : ℕ} {source : String} {p : Placeholder}

/-- What is left of a value stands in a value. -/
theorem via_ne_none_of_mem_expandLink {value : String} {u : Unresolved}
    (h : u ∈ (expandLink lookup depth p value).unresolved) : u.via ≠ none := by
  rw [expandLink] at h
  split at h
  · exact absurd h List.not_mem_nil
  · rw [mem_unresolved_expandLevels_iff (List.pairwise_singleton _ _)] at h
    obtain ⟨names, text, -, -, -, q, -, reason, -, rfl⟩ := h
    show (names ++ [p.name]).head? ≠ none
    simp

/-- A placeholder in a text of its own expands alike, but for its place. -/
theorem movedTo_expandToken (p : Placeholder) :
    (expandToken lookup [] (expandLink lookup depth) (.placeholder p.alone)).movedTo p.span =
      expandToken lookup [] (expandLink lookup depth) (.placeholder p) := by
  have hname : p.alone.name = p.name := rfl
  rw [expandToken, expandToken, hname, if_neg List.not_mem_nil, if_neg List.not_mem_nil]
  cases lookup p.name with
  | notFound | unknownNamespace => rfl
  | found value =>
      by_cases hlink : isLink value = true
      · simp only [hlink, if_true]
        -- the value is expanded for the name, whatever the place of the placeholder
        exact Expansion.movedTo_eq_self fun u hu => via_ne_none_of_mem_expandLink hu
      · simp only [hlink, Bool.false_eq_true, if_false]
        rfl

/-- A placeholder alone expands as its token does. -/
theorem expandToDepth_raw (h : p ∈ placeholders source) :
    expandToDepth lookup depth p.raw =
      expandToken lookup [] (expandLink lookup depth) (.placeholder p.alone) := by
  rw [expandToDepth_eq, expandLevel, scan_raw h]
  exact (Expansion.empty_append _).trans (Expansion.append_empty _)

/-- **What a token contributes can be said of the token alone.** -/
theorem expandAlone_eq {token : Token} (h : token ∈ (scan source).tokens) :
    token.expandAlone (expandToDepth lookup depth) =
      expandToken lookup [] (expandLink lookup depth) token := by
  cases token with
  | literal text span => rfl
  | placeholder p =>
      rw [Token.expandAlone, expandToDepth_raw (placeholder_mem_tokens_iff.mp h)]
      exact movedTo_expandToken p

end Alone

/-! ### Tokens in a run -/

namespace Expander

variable {lookup : Name → Resolution} {maxDepth : ℕ} {levels : List Level} {source : String}

/-- What a run does with the values that the text itself mentions. -/
theorem runsLinks_expandLink :
    RunsLinks lookup maxDepth 1 levels [] (expandLink lookup maxDepth) := by
  by_cases hshallow : maxDepth ≤ 1
  · rw [expandLink_shallow hshallow]
    exact runsLinks_shallow hshallow
  · have hlimit : 1 + 1 + (maxDepth - 2) = maxDepth := by omega
    rw [expandLink_deep hshallow]
    exact runsLinks_below_limit (fun name => expandLevels lookup (maxDepth - 2) [name]) hshallow
      hshallow fun _ _ _ _ => runs_expandLevels hshallow hlimit

/-- **The expander handles a token as if it were alone**, whatever it has written down before and
whatever is still to come. Afterwards the active names are what they were. -/
theorem runs_expandAlone {token : Token} (h : token ∈ (scan source).tokens) (rest : List Token)
    (result : Expansion) :
    Runs lookup maxDepth ⟨[⟨token :: rest, 1, none⟩], [], result⟩
      ⟨[⟨rest, 1, none⟩], [],
        result ++ token.expandAlone (expandToDepth lookup maxDepth)⟩ := by
  rw [expandAlone_eq h]
  exact runs_token runsLinks_expandLink token rest result

end Expander

/-- **Expansion is compositional over tokens.** The text of an expansion is the literal text of the
source and the texts of its placeholders expanded alone, in their order. What is left is what is
left of the placeholders alone, moved to their places, and the reports are those of the source,
followed by those of its placeholders alone. The expander handles every token by adding what it is
alone, whatever came before it and comes after it. -/
theorem expansion_is_compositional (c : Context) (source : String) (options : ExpansionOptions) :
    (c.expand source options).text = String.join ((scan source).tokens.map fun
      | .literal text _ => text
      | .placeholder p => (c.expand p.raw options).text) ∧
    (c.expand source options).unresolved = (placeholders source).flatMap (fun p =>
      (c.expand p.raw options).unresolved.map (·.movedTo p.span)) ∧
    (c.expand source options).errors = (scan source).malformed.map StatusMessage.of ++
      (placeholders source).flatMap (fun p => (c.expand p.raw options).errors) ∧
    (∀ token ∈ (scan source).tokens, ∀ rest result,
      Expander.Runs c.lookup options.depth ⟨[⟨token :: rest, 1, none⟩], [], result⟩
        ⟨[⟨rest, 1, none⟩], [], result ++ token.expandAlone (c.expand · options)⟩) := by
  have halone : ∀ p ∈ placeholders source,
      expandToken c.lookup [] (expandLink c.lookup options.depth) (.placeholder p) =
        (c.expand p.raw options).movedTo p.span :=
    fun p hp => (expandAlone_eq (placeholder_mem_tokens_iff.mpr hp)).symm
  refine ⟨?_, ?_, ?_, ?_⟩
  · rw [Context.expand, expandToDepth_eq, text_expandLevel]
    congr 1
    refine List.map_congr_left fun token htoken => ?_
    cases token with
    | literal text span => rfl
    | placeholder p =>
        rw [halone p (placeholder_mem_tokens_iff.mp htoken), Expansion.text_movedTo]
  · rw [Context.expand, expandToDepth_eq, unresolved_expandLevel]
    refine List.flatMap_congr fun p hp => ?_
    rw [halone p hp, Expansion.unresolved_movedTo]
  · rw [Context.expand, expandToDepth_eq, errors_expandLevel]
    congr 1
    refine List.flatMap_congr fun p hp => ?_
    rw [halone p hp, Expansion.errors_movedTo]
  · intro token htoken rest result
    exact Expander.runs_expandAlone htoken rest result

/-- Where two values need each other, the second of two placeholders expands as if the first one
had not been there: the names that were active for the first one are active no more. -/
theorem mutual_values_expand_alone :
    ∃ token ∈ (scan "\x7b\x7bA:Y\x7d\x7d, \x7b\x7bA:X\x7d\x7d").tokens,
      token.raw = "\x7b\x7bA:X\x7d\x7d" ∧ ∀ rest result,
        Expander.Runs mutualValues.lookup (⟨8⟩ : ExpansionOptions).depth
          ⟨[⟨token :: rest, 1, none⟩], [], result⟩ ⟨[⟨rest, 1, none⟩], [],
            result ++ token.expandAlone (mutualValues.expand · ⟨8⟩)⟩ := by
  obtain ⟨token, htoken, hraw⟩ :
      ∃ token ∈ (scan "\x7b\x7bA:Y\x7d\x7d, \x7b\x7bA:X\x7d\x7d").tokens,
        token.raw = "\x7b\x7bA:X\x7d\x7d" := by
    decide +kernel
  have h := expansion_is_compositional mutualValues
    "\x7b\x7bA:Y\x7d\x7d, \x7b\x7bA:X\x7d\x7d" ⟨8⟩
  exact ⟨token, htoken, hraw, h.2.2.2 token htoken⟩

end LinkExpr
