import LinkExpr.Proofs.Expansion.Unresolved

/-!
# One Level of an Expansion

A level of text is expanded token by token, and each token contributes to the outcome by itself.
So the text, the placeholders left and the reports of a level are put together from those of its
tokens, and two ways to expand a level that treat every placeholder of it alike have one outcome.

Much is known of an expansion that leaves no placeholder for some reason (`Expansion.Lacks`): the
same then holds of every value that was expanded in turn.

## Main results

* `text_expandLevel`, `unresolved_expandLevel`, `errors_expandLevel`: a level is what its tokens
  contribute.
* `expandLevel_congr`: what may differ between two expansions of a level without being noticed.
* `Expansion.Lacks.link`, `Expansion.Lacks.not_mem_active`: what a level without a reason says of
  its placeholders and of their values.
* `expandToDepth_eq`: at every depth the text itself is one level.
-/

namespace LinkExpr

namespace Expansion

theorem text_concat (es : List Expansion) : (concat es).text = String.join (es.map text) := by
  induction es with
  | nil => rfl
  | cons e es ih => rw [concat_cons, text_append, ih, List.map_cons, String.join_cons]

theorem unresolved_concat (es : List Expansion) :
    (concat es).unresolved = es.flatMap unresolved := by
  induction es with
  | nil => rfl
  | cons e es ih => rw [concat_cons, unresolved_append, ih, List.flatMap_cons]

theorem errors_concat (es : List Expansion) : (concat es).errors = es.flatMap errors := by
  induction es with
  | nil => rfl
  | cons e es ih => rw [concat_cons, errors_append, ih, List.flatMap_cons]

/-- No placeholder was left for a reason. -/
def Lacks (e : Expansion) (reason : Reason) : Prop := ∀ u ∈ e.unresolved, u.reason ≠ reason

instance (e : Expansion) (reason : Reason) : Decidable (e.Lacks reason) :=
  inferInstanceAs (Decidable (∀ u ∈ e.unresolved, u.reason ≠ reason))

end Expansion

/-- A placeholder token of a text is one of its placeholders. -/
theorem placeholder_mem_tokens_iff {source : String} {p : Placeholder} :
    .placeholder p ∈ (scan source).tokens ↔ p ∈ placeholders source := by
  rw [placeholders, Scan.placeholders, List.mem_filterMap]
  constructor
  · intro h
    exact ⟨.placeholder p, h, rfl⟩
  · rintro ⟨token, htoken, hp⟩
    cases token with
    | literal text span => cases hp
    | placeholder q => exact Option.some.inj hp ▸ htoken

/-- What literal text does not contribute to comes from the placeholders. -/
theorem flatMap_tokens {β : Type} {f : Token → List β}
    (hf : ∀ text span, f (.literal text span) = []) (source : String) :
    (scan source).tokens.flatMap f = (placeholders source).flatMap fun p => f (.placeholder p) := by
  rw [placeholders, Scan.placeholders]
  induction (scan source).tokens with
  | nil => rfl
  | cons token rest ih =>
      rw [List.flatMap_cons, ih]
      cases token with
      | literal text span => rw [hf, List.nil_append]; rfl
      | placeholder p => rfl

section Level

variable {lookup lookup' : Name → Resolution} {active : List Name}
  {onLink onLink' : Placeholder → String → Expansion} {source : String} {p : Placeholder}

theorem text_expandLevel : (expandLevel lookup active onLink source).text =
    String.join ((scan source).tokens.map fun token =>
      (expandToken lookup active onLink token).text) := by
  rw [expandLevel, Expansion.text_append, Expansion.text_concat, List.map_map]
  exact String.empty_append

theorem unresolved_expandLevel : (expandLevel lookup active onLink source).unresolved =
    (placeholders source).flatMap fun p =>
      (expandToken lookup active onLink (.placeholder p)).unresolved := by
  rw [expandLevel, Expansion.unresolved_append, Expansion.unresolved_concat, List.flatMap_map]
  exact flatMap_tokens (fun _ _ => rfl) source

theorem errors_expandLevel : (expandLevel lookup active onLink source).errors =
    (scan source).malformed.map StatusMessage.of ++ (placeholders source).flatMap fun p =>
      (expandToken lookup active onLink (.placeholder p)).errors := by
  rw [expandLevel, Expansion.errors_append, Expansion.errors_concat, List.flatMap_map,
    flatMap_tokens fun _ _ => rfl]

/-- A placeholder expands alike if its name is looked up alike, unless it is active, and if its
value is, where it is a link. -/
theorem expandToken_congr
    (hlookup : p.name ∉ active → lookup p.name = lookup' p.name)
    (hlinks : ∀ value, p.name ∉ active → lookup p.name = .found value → isLink value = true →
      onLink p value = onLink' p value) :
    expandToken lookup active onLink (.placeholder p) =
      expandToken lookup' active onLink' (.placeholder p) := by
  rw [expandToken, expandToken]
  by_cases hmem : p.name ∈ active
  · rw [if_pos hmem, if_pos hmem]
  · rw [if_neg hmem, if_neg hmem, ← hlookup hmem]
    cases hvalue : lookup p.name with
    | notFound | unknownNamespace => rfl
    | found value =>
        by_cases hlink : isLink value = true
        · simp only [hlink, if_true]
          exact hlinks value hmem hvalue hlink
        · simp only [hlink, Bool.false_eq_true, if_false]

/-- Two expansions of a level that treat all its placeholders alike have one outcome. -/
theorem expandLevel_congr
    (h : ∀ p ∈ placeholders source, expandToken lookup active onLink (.placeholder p) =
      expandToken lookup' active onLink' (.placeholder p)) :
    expandLevel lookup active onLink source = expandLevel lookup' active onLink' source := by
  rw [expandLevel, expandLevel]
  congr 2
  refine List.map_congr_left fun token htoken => ?_
  cases token with
  | literal text span => rfl
  | placeholder p => exact h p (placeholder_mem_tokens_iff.mp htoken)

/-- What a level leaves for no placeholder, it leaves for none in the values either. -/
theorem Expansion.Lacks.link {reason : Reason} {value : String}
    (h : (expandLevel lookup active onLink source).Lacks reason) (hp : p ∈ placeholders source)
    (hfresh : p.name ∉ active) (hvalue : lookup p.name = .found value)
    (hlink : isLink value = true) : (onLink p value).Lacks reason :=
  fun u hu => h u (mem_unresolved_expandLevel_iff.mpr
    ⟨p, hp, .inr ⟨hfresh, value, hvalue, hlink, hu⟩⟩)

/-- What a level leaves for no placeholder is right for none of them. -/
theorem Expansion.Lacks.not_rightReason {reason : Reason}
    (h : (expandLevel lookup active onLink source).Lacks reason) (hp : p ∈ placeholders source) :
    ¬ RightReason lookup active False p.name reason :=
  fun hreason => h _ (mem_unresolved_expandLevel_iff.mpr
    ⟨p, hp, .inl ⟨reason, hreason, rfl⟩⟩) rfl

/-- A level without a cycle mentions no active name. -/
theorem Expansion.Lacks.not_mem_active
    (h : (expandLevel lookup active onLink source).Lacks .cycle) (hp : p ∈ placeholders source) :
    p.name ∉ active :=
  fun hmem => h.not_rightReason hp ((rightReason_of_mem hmem).mpr rfl)

end Level

/-- What an expansion to a depth makes of a value that is a link, where the text itself mentions
it. -/
def expandLink (lookup : Name → Resolution) (depth : ℕ) (p : Placeholder) (value : String) :
    Expansion :=
  if depth ≤ 1 then .ofText value else expandLevels lookup (depth - 2) [p.name] value

/-- At a depth of one, values are inserted as they are. -/
theorem expandLink_shallow {lookup : Name → Resolution} {depth : ℕ} (h : depth ≤ 1) :
    expandLink lookup depth = fun _ value => .ofText value := by
  funext p value
  rw [expandLink, if_pos h]

/-- At greater depths, values are expanded while the name is active. -/
theorem expandLink_deep {lookup : Name → Resolution} {depth : ℕ} (h : ¬ depth ≤ 1) :
    expandLink lookup depth = fun p value => expandLevels lookup (depth - 2) [p.name] value := by
  funext p value
  rw [expandLink, if_neg h]

/-- At every depth the text itself is one level. -/
theorem expandToDepth_eq (lookup : Name → Resolution) (depth : ℕ) (source : String) :
    expandToDepth lookup depth source = expandLevel lookup [] (expandLink lookup depth) source := by
  rw [expandToDepth]
  by_cases hshallow : depth ≤ 1
  · rw [if_pos hshallow, expandLink_shallow hshallow]
  · obtain ⟨levels, rfl⟩ : ∃ levels, depth = levels + 2 := ⟨depth - 2, by omega⟩
    rw [if_neg hshallow, expandLink_deep hshallow]
    rfl

end LinkExpr
