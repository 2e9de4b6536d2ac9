import LinkExpr.Proofs.Expansion.Levels

/-!
# Deeper Limits

The limit of an expansion is noticed only where it is reached. An expansion that leaves no
placeholder because of its limit never looked at what lies beyond it, so every greater limit has
the same outcome, cycles included: whether a name is active does not depend on the limit.

Below two levels there is nothing to limit, since values are inserted as they are, and above
`maxExpansionDepth` all limits are the same.

## Main results

* `expandLevels_add`: further levels change nothing where the limit was not reached.
* `deeper_limits_agree`: the same for the depths of the options, with both of their bounds.
-/

namespace LinkExpr

section Limits

variable {lookup : Name → Resolution} {active : List Name} {source : String}

/-- **Further levels change nothing where the limit was not reached.** -/
theorem expandLevels_add {levels : ℕ} (more : ℕ)
    (h : (expandLevels lookup levels active source).Lacks .depthExceeded) :
    expandLevels lookup (levels + more) active source =
      expandLevels lookup levels active source := by
  induction levels generalizing active source with
  | zero =>
      cases more with
      | zero => rfl
      | succ more =>
          rw [Nat.zero_add, expandLevels, expandLevels]
          refine expandLevel_congr fun p hp => expandToken_congr (fun _ => rfl) ?_
          intro value hfresh hvalue hlink
          -- the value would have been left for the limit
          have hleft := h.link hp hfresh hvalue hlink
          exact absurd rfl (hleft _ (List.mem_singleton.mpr rfl))
  | succ levels ih =>
      rw [Nat.succ_add, expandLevels, expandLevels]
      refine expandLevel_congr fun p hp => expandToken_congr (fun _ => rfl) ?_
      intro value hfresh hvalue hlink
      exact ih (h.link hp hfresh hvalue hlink)

/-- A limit of at least two levels that is not reached may be raised. -/
theorem expandToDepth_of_le {limit limit' : ℕ} (hdeep : 2 ≤ limit) (hle : limit ≤ limit')
    (h : (expandToDepth lookup limit source).Lacks .depthExceeded) :
    expandToDepth lookup limit' source = expandToDepth lookup limit source := by
  rw [expandToDepth, if_neg (by omega)] at h
  rw [expandToDepth, expandToDepth, if_neg (by omega), if_neg (by omega)]
  have hlevels : limit' - 1 = limit - 1 + (limit' - limit) := by omega
  rw [hlevels]
  exact expandLevels_add _ h

/-- Without a second level the depth does not matter. -/
theorem expandToDepth_of_le_one {limit : ℕ} (h : limit ≤ 1) :
    expandToDepth lookup limit source = expandToDepth lookup 1 source := by
  rw [expandToDepth, expandToDepth, if_pos h, if_pos (le_refl 1)]

end Limits

/-- **A deeper limit only matters where the limit was reached.** An expansion to a depth of at
least two that leaves nothing because of its limit is the expansion to every greater depth. The
depths zero and one give the same expansion, and so do all depths from the greatest one on. -/
theorem deeper_limits_agree (c : Context) (source : String) :
    (∀ options options' : ExpansionOptions, 2 ≤ options.maxDepth.toNat →
      options.maxDepth ≤ options'.maxDepth →
      (c.expand source options).Lacks .depthExceeded →
        c.expand source options' = c.expand source options) ∧
    c.expand source ⟨0⟩ = c.expand source ⟨1⟩ ∧
    (∀ options : ExpansionOptions, 64 < options.maxDepth.toNat →
      c.expand source options = c.expand source ⟨64⟩) := by
  refine ⟨?_, ?_, ?_⟩
  · intro options options' hdeep hle h
    have hdepth : 2 ≤ options.depth := Nat.le_min.mpr ⟨hdeep, by decide⟩
    have hmax : options.maxDepth.toNat ≤ options'.maxDepth.toNat := UInt64.le_iff_toNat_le.mp hle
    have hdepths : options.depth ≤ options'.depth := by
      simp only [ExpansionOptions.depth]
      omega
    exact expandToDepth_of_le hdepth hdepths h
  · exact expandToDepth_of_le_one (by decide)
  · intro options hgreat
    have hdepth : options.depth = 64 := Nat.min_eq_right (Nat.le_of_lt hgreat)
    have hgreatest : (⟨64⟩ : ExpansionOptions).depth = 64 := by decide
    rw [Context.expand, Context.expand, hdepth, hgreatest]

/-- A value that mentions itself beside a name without a value. -/
def selfReference : Context where
  registry := .ofPlain ["A"]
  scopes := [(Scope.empty "scope").insert "A" "X" "\x7b\x7bA:X\x7d\x7d, \x7b\x7bA:Y\x7d\x7d"]

/-- Two levels are enough to find the cycle, so the greatest possible depth finds nothing else. -/
theorem self_reference_needs_two_levels :
    (selfReference.expand "\x7b\x7bA:X\x7d\x7d" ⟨2⟩).Lacks .depthExceeded ∧
    ¬ (selfReference.expand "\x7b\x7bA:X\x7d\x7d" ⟨2⟩).Lacks .cycle ∧
    selfReference.expand "\x7b\x7bA:X\x7d\x7d" ⟨18446744073709551615⟩ =
      selfReference.expand "\x7b\x7bA:X\x7d\x7d" ⟨2⟩ ∧
    selfReference.expand "\x7b\x7bA:X\x7d\x7d" ⟨18446744073709551615⟩ =
      selfReference.expand "\x7b\x7bA:X\x7d\x7d" ⟨64⟩ := by
  have h := deeper_limits_agree selfReference "\x7b\x7bA:X\x7d\x7d"
  have hlacks : (selfReference.expand "\x7b\x7bA:X\x7d\x7d" ⟨2⟩).Lacks .depthExceeded := by
    decide +kernel
  have hcycle : ¬ (selfReference.expand "\x7b\x7bA:X\x7d\x7d" ⟨2⟩).Lacks .cycle := by
    decide +kernel
  exact ⟨hlacks, hcycle, h.1 ⟨2⟩ ⟨18446744073709551615⟩ (by decide) (by decide) hlacks,
    h.2.2 ⟨18446744073709551615⟩ (by decide)⟩

end LinkExpr
