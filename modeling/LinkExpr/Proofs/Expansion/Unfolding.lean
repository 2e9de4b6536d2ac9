import LinkExpr.Proofs.Expansion.Composition
import LinkExpr.Proofs.Scan.Names

/-!
# Unfolding a Level

A placeholder whose value is a link expands as the value does with one level less. Only the origin
of what is left changes: what stands in the value itself has none there, and comes from the
placeholder here.

The two expansions differ at every level. Their limits are one apart, and so are their levels, so
that they reach the limit together; and the name of the placeholder is active in one of them only.
A name that is active outside of all others is noticed in two places: where it is met again, which
is a cycle, and where something is left while no other name is active, whose origin it is.

## Main results

* `expandLevels_append`: an expansion without a cycle does not depend on further active names but
  for the origin of what is left, by induction on the levels.
* `unfolding_takes_one_level`: a placeholder and its value.
-/

namespace LinkExpr

/-! ### Origins -/

/-- A placeholder that is left, seen from further outside: it keeps its origin if it has one. -/
def Unresolved.within (outer : Option Name) (u : Unresolved) : Unresolved :=
  { u with via := u.via.or outer }

namespace Expansion

/-- An expansion seen from further outside. -/
def within (outer : Option Name) (e : Expansion) : Expansion :=
  { e with unresolved := e.unresolved.map (·.within outer) }

@[simp] theorem text_within (outer : Option Name) (e : Expansion) :
    (e.within outer).text = e.text := rfl

@[simp] theorem unresolved_within (outer : Option Name) (e : Expansion) :
    (e.within outer).unresolved = e.unresolved.map (·.within outer) := rfl

@[simp] theorem errors_within (outer : Option Name) (e : Expansion) :
    (e.within outer).errors = e.errors := rfl

theorem within_append (outer : Option Name) (a b : Expansion) :
    (a ++ b).within outer = a.within outer ++ b.within outer := by
  ext1 <;> simp

theorem within_concat (outer : Option Name) (es : List Expansion) :
    (concat es).within outer = concat (es.map (·.within outer)) := by
  induction es with
  | nil => rfl
  | cons e es ih => rw [concat_cons, within_append, ih, List.map_cons, concat_cons]

end Expansion

/-- Further active names are an origin only where no other name is active. -/
theorem ofUnresolved_append (p : Placeholder) (active outer : List Name) (reason : Reason) :
    Expansion.ofUnresolved (.ofPlaceholder p (active ++ outer).head? reason) =
      (Expansion.ofUnresolved (.ofPlaceholder p active.head? reason)).within outer.head? := by
  rw [List.head?_append]
  rfl

/-! ### Further active names -/

section Outer

variable {lookup : Name → Resolution} {active outer : List Name} {levels : ℕ}
  {onLink onLink' : Placeholder → String → Expansion} {source value : String} {p : Placeholder}
  {name : Name}

/-- A placeholder that is not active expands alike, but for the origin of what is left. -/
theorem expandToken_append (hfresh : p.name ∉ active ++ outer)
    (hlinks : ∀ value, lookup p.name = .found value → isLink value = true →
      onLink' p value = (onLink p value).within outer.head?) :
    expandToken lookup (active ++ outer) onLink' (.placeholder p) =
      (expandToken lookup active onLink (.placeholder p)).within outer.head? := by
  have hinner : p.name ∉ active := fun hmem => hfresh (List.mem_append_left outer hmem)
  rw [expandToken, expandToken, if_neg hfresh, if_neg hinner]
  cases hvalue : lookup p.name with
  | notFound | unknownNamespace => exact ofUnresolved_append p active outer _
  | found value =>
      by_cases hlink : isLink value = true
      · simp only [hlink, if_true]
        exact hlinks value hvalue hlink
      · simp only [hlink, Bool.false_eq_true, if_false]
        rfl

/-- A level whose placeholders expand alike, but for the origin of what is left. -/
theorem expandLevel_append
    (h : ∀ p ∈ placeholders source, expandToken lookup (active ++ outer) onLink' (.placeholder p) =
      (expandToken lookup active onLink (.placeholder p)).within outer.head?) :
    expandLevel lookup (active ++ outer) onLink' source =
      (expandLevel lookup active onLink source).within outer.head? := by
  rw [expandLevel, expandLevel, Expansion.within_append, Expansion.within_concat, List.map_map]
  have htokens : ∀ token ∈ (scan source).tokens,
      expandToken lookup (active ++ outer) onLink' token =
        (expandToken lookup active onLink token).within outer.head? := by
    intro token htoken
    cases token with
    | literal text span => rfl
    | placeholder p => exact h p (placeholder_mem_tokens_iff.mp htoken)
  rw [List.map_congr_left htokens]
  rfl

/-- **Further active names only show in the origin of what is left**, if there is no cycle. -/
theorem expandLevels_append
    (h : (expandLevels lookup levels (active ++ outer) source).Lacks .cycle) :
    expandLevels lookup levels (active ++ outer) source =
      (expandLevels lookup levels active source).within outer.head? := by
  induction levels generalizing active source with
  | zero =>
      refine expandLevel_append fun p hp => expandToken_append (h.not_mem_active hp) ?_
      intro value _ _
      exact ofUnresolved_append p active outer _
  | succ levels ih =>
      refine expandLevel_append fun p hp => expandToken_append (h.not_mem_active hp) ?_
      intro value hvalue hlink
      -- the value has the placeholder as its innermost active name in both expansions
      rw [← List.cons_append]
      exact ih (h.link hp (h.not_mem_active hp) hvalue hlink)

/-- A placeholder alone, whose value is a link, expands as its value while its name is active. -/
theorem expandToDepth_toString {limit : ℕ} (hdeep : 2 ≤ limit) (hname : Mentions source name)
    (hvalue : lookup name = .found value) (hlink : isLink value = true) :
    expandToDepth lookup limit name.toString = expandLevels lookup (limit - 2) [name] value := by
  obtain ⟨p, hp, rfl⟩ := hname
  have htext : p.name.toString = p.raw := toString_name_of_mem_placeholders hp
  rw [htext, expandToDepth_raw hp, expandLink_deep (by omega), expandToken,
    if_neg List.not_mem_nil]
  have halone : lookup p.alone.name = .found value := hvalue
  simp only [halone, hlink, if_true]
  rfl

/-- A value expands while its name is active as it expands alone, if there is no cycle. -/
theorem expandLevels_singleton {limit : ℕ} (hdeep : 2 ≤ limit)
    (h : (expandLevels lookup (limit - 1) [name] value).Lacks .cycle) :
    expandLevels lookup (limit - 1) [name] value =
      (expandToDepth lookup limit value).within (some name) := by
  rw [expandToDepth, if_neg (by omega)]
  rw [← List.nil_append [name]] at h ⊢
  exact expandLevels_append h

end Outer

/-- **Unfolding a placeholder takes one level.** A placeholder whose value is a link expands, to a
depth of at least three and at most the greatest one, as its value does to the depth before it,
unless there is a cycle. The texts and the errors are the same, and so is what is left, in the same
order; what has no origin in the value comes from the placeholder. -/
theorem unfolding_takes_one_level (c : Context) {source value : String} {name : Name}
    {depth : UInt64} (hname : Mentions source name) (hvalue : c.lookup name = .found value)
    (hlink : isLink value = true) (hdeep : 3 ≤ depth) (hmax : depth ≤ 64)
    (hlacks : (c.expand name.toString ⟨depth⟩).Lacks .cycle) :
    (c.expand name.toString ⟨depth⟩).text = (c.expand value ⟨depth - 1⟩).text ∧
    (c.expand name.toString ⟨depth⟩).errors = (c.expand value ⟨depth - 1⟩).errors ∧
    (c.expand name.toString ⟨depth⟩).unresolved =
      (c.expand value ⟨depth - 1⟩).unresolved.map (·.within (some name)) := by
  have hlow : 3 ≤ depth.toNat := UInt64.le_iff_toNat_le.mp hdeep
  have hhigh : depth.toNat ≤ 64 := UInt64.le_iff_toNat_le.mp hmax
  have houter : (⟨depth⟩ : ExpansionOptions).depth = depth.toNat := Nat.min_eq_left hhigh
  have hinner : (⟨depth - 1⟩ : ExpansionOptions).depth = depth.toNat - 1 := by
    have hone : (1 : UInt64) ≤ depth := UInt64.le_iff_toNat_le.mpr (le_trans (by decide) hlow)
    rw [ExpansionOptions.depth, UInt64.toNat_sub_of_le _ _ hone]
    exact Nat.min_eq_left (le_trans (Nat.sub_le _ _) hhigh)
  have hunfold : c.expand name.toString ⟨depth⟩ =
      expandLevels c.lookup (depth.toNat - 1 - 1) [name] value := by
    rw [Context.expand, houter, expandToDepth_toString (by omega) hname hvalue hlink, Nat.sub_sub]
  have heq : c.expand name.toString ⟨depth⟩ =
      (c.expand value ⟨depth - 1⟩).within (some name) := by
    rw [hunfold] at hlacks ⊢
    rw [Context.expand, hinner]
    exact expandLevels_singleton (by omega) hlacks
  rw [heq]
  exact ⟨rfl, rfl, rfl⟩

/-- A chain of values whose last one is out of reach, beside a name of an unknown namespace. -/
def linkedValues : Context where
  registry := .ofPlain ["A"]
  scopes := [(Scope.empty "scope").insertAll
    [("A", "X", "\x7b\x7bA:Y\x7d\x7d and \x7b\x7bB:K\x7d\x7d"), ("A", "Y", "<\x7b\x7bA:Z\x7d\x7d>"),
      ("A", "Z", "\x7b\x7bA:W\x7d\x7d")]]

/-- The limit is reached in the same value, and the unknown name comes from the placeholder. -/
theorem limit_moves_with_the_level :
    (linkedValues.expand "\x7b\x7bA:X\x7d\x7d" ⟨3⟩).text =
      (linkedValues.expand "\x7b\x7bA:Y\x7d\x7d and \x7b\x7bB:K\x7d\x7d" ⟨2⟩).text ∧
    (linkedValues.expand "\x7b\x7bA:X\x7d\x7d" ⟨3⟩).unresolved.map (fun u => (u.reason, u.via)) =
      [(.depthExceeded, some ⟨"A", "Y"⟩), (.unknownNamespace, some ⟨"A", "X"⟩)] := by
  have hname : Mentions "\x7b\x7bA:X\x7d\x7d" ⟨"A", "X"⟩ := by decide +kernel
  have hvalue : linkedValues.lookup ⟨"A", "X"⟩ =
      .found "\x7b\x7bA:Y\x7d\x7d and \x7b\x7bB:K\x7d\x7d" := by decide +kernel
  have hlacks : (linkedValues.expand (⟨"A", "X"⟩ : Name).toString ⟨3⟩).Lacks .cycle := by
    decide +kernel
  obtain ⟨htext, -, hunresolved⟩ := unfolding_takes_one_level linkedValues hname hvalue
    (by decide +kernel) (by decide) (by decide) hlacks
  have hraw : (⟨"A", "X"⟩ : Name).toString = "\x7b\x7bA:X\x7d\x7d" := by decide +kernel
  rw [hraw] at htext hunresolved
  refine ⟨htext, ?_⟩
  rw [hunresolved]
  decide +kernel

end LinkExpr
