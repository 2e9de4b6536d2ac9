import LinkExpr.Proofs.Expansion.Unresolved
import Mathlib.Data.Set.Card

/-!
# Cycles Are Found

An expansion looks for a cycle along the chain of active names only, and gives up at a limit. It
may miss a cycle that is too far away. If fewer values are links than the limit allows levels,
every chain of distinct names is short enough, since all its names have such a value: the limit is
never reached, and every cycle is walked into before it.

## Main results

* `length_le_encard`: distinct names of a set are no more than the set has.
* `Justified.mem_linkNames`: all active names have values that are links.
* `exists_cycle_iff`: a cycle is reported exactly if one can be reached.
* `cycles_are_found`: what a context with few links means for the reports of an expansion.
-/

namespace LinkExpr

/-- The names that can be reached from a text and whose value is a link. -/
def linkNames (lookup : Name → Resolution) (source : String) : Set Name :=
  {name | Reachable lookup source name ∧ ∃ value, lookup name = .found value ∧ isLink value = true}

/-- Distinct names of a set are no more than the set has. -/
theorem length_le_encard {names : List Name} {s : Set Name} (h : names.Nodup)
    (hsub : ∀ name ∈ names, name ∈ s) : (names.length : ℕ∞) ≤ s.encard := by
  have hset : ({name | name ∈ names} : Set Name) ⊆ s := hsub
  rw [← List.coe_toFinset] at hset
  have hle := Set.encard_le_encard hset
  rwa [Set.encard_coe_eq_coe_finsetCard, List.toFinset_card_of_nodup h] at hle

section Small

variable {lookup : Name → Resolution} {limit : ℕ} {source text : String} {names : List Name}
  {name : Name} {u : Unresolved}

/-- If the end of a chain mentions a name, all names of the chain have values that are links. -/
theorem Chain.mem_linkNames (h : Chain lookup source names text) (hname : Mentions text name) :
    ∀ a ∈ names, a ∈ linkNames lookup source :=
  fun _ hmem => ⟨h.reachable_of_mem hmem, h.isLink_of_mem hname hmem⟩

/-- What is left is mentioned at the end of its chain. -/
theorem Justified.mentions (h : Justified lookup limit source names text u) :
    Mentions text u.name := by
  obtain ⟨p, hp, hu⟩ := h.placed
  exact ⟨p, hp, (congrArg Unresolved.name hu).symm⟩

/-- What is left can be reached. -/
theorem Justified.reachable (h : Justified lookup limit source names text u) :
    Reachable lookup source u.name :=
  h.chain.reachable_of_mentions h.mentions

/-- With fewer links than levels, the limit is never reached. -/
theorem Justified.reason_ne_depthExceeded (h : Justified lookup limit source names text u)
    (hsmall : (linkNames lookup source).encard < limit) : u.reason ≠ .depthExceeded := by
  intro hexceeded
  have hfresh : u.name ∉ names := by
    intro hmem
    rw [h.reason.cycle_iff.mpr hmem] at hexceeded
    cases hexceeded
  obtain ⟨⟨hdeep, hlength⟩, value, hvalue, hlink⟩ :=
    (h.reason.depthExceeded_iff hfresh).mp hexceeded
  -- the names of the chain and the name that is left are as many as the limit
  have hlinks : ∀ a ∈ u.name :: names, a ∈ linkNames lookup source := by
    intro a ha
    rcases List.mem_cons.mp ha with rfl | hmem
    · exact ⟨h.reachable, value, hvalue, hlink⟩
    · exact h.chain.mem_linkNames h.mentions a hmem
  have hle := length_le_encard (List.nodup_cons.mpr ⟨hfresh, h.distinct⟩) hlinks
  have hfull : (u.name :: names).length = limit := by
    rw [List.length_cons]
    omega
  rw [hfull] at hle
  exact absurd hsmall (not_lt.mpr hle)

/-- With fewer links than levels, a chain of distinct names that comes back is reported. -/
theorem exists_cycle_of_returns (hsmall : (linkNames lookup source).encard < limit)
    (h : Returns lookup source) :
    ∃ u ∈ (expandToDepth lookup limit source).unresolved, u.reason = .cycle := by
  obtain ⟨names, text, name, hchain, hdistinct, ⟨p, hp, rfl⟩, hmem⟩ := h
  have hle := length_le_encard hdistinct (hchain.mem_linkNames ⟨p, hp, rfl⟩)
  have hshort : names.length < limit := by
    have hlt := lt_of_le_of_lt hle hsmall
    exact_mod_cast hlt
  refine ⟨.ofPlaceholder p names.head? .cycle, mem_unresolved_iff.mpr ⟨names, text, ?_⟩, rfl⟩
  exact ⟨hchain, hdistinct, by omega, ⟨p, hp, rfl⟩, (rightReason_of_mem hmem).mpr rfl⟩

/-- **A cycle is reported exactly if one can be reached**, with fewer links than levels. -/
theorem exists_cycle_iff (hsmall : (linkNames lookup source).encard < limit) :
    (∃ u ∈ (expandToDepth lookup limit source).unresolved, u.reason = .cycle) ↔
      ∃ name, Reachable lookup source name ∧ Relation.TransGen (Refers lookup) name name := by
  constructor
  · rintro ⟨u, hu, hcycle⟩
    obtain ⟨names, text, h⟩ := mem_unresolved_iff.mp hu
    have hmem : u.name ∈ names := h.reason.cycle_iff.mp hcycle
    exact ⟨u.name, h.reachable, h.chain.transGen_of_mem h.mentions hmem⟩
  · rintro ⟨name, hreach, hcycle⟩
    exact exists_cycle_of_returns hsmall (returns_of_cycle hreach hcycle)

end Small

/-- **Cycles are found when the values are few.** With fewer names whose value is a link than
levels to expand, the limit is never reached, and a cycle is reported exactly if one can be
reached. If there is none and all names are found, nothing is left. -/
theorem cycles_are_found (c : Context) (source : String) (options : ExpansionOptions)
    (hsmall : (linkNames c.lookup source).encard < options.depth) :
    (∀ u ∈ (c.expand source options).unresolved, u.reason ≠ .depthExceeded) ∧
    ((∃ u ∈ (c.expand source options).unresolved, u.reason = .cycle) ↔
      ∃ name, Reachable c.lookup source name ∧
        Relation.TransGen (Refers c.lookup) name name) ∧
    ((∀ name, Reachable c.lookup source name →
        ¬ Relation.TransGen (Refers c.lookup) name name) →
      (∀ name, Reachable c.lookup source name → ∃ value, c.lookup name = .found value) →
        (c.expand source options).unresolved = []) := by
  have hlimit : ∀ u ∈ (c.expand source options).unresolved, u.reason ≠ .depthExceeded := by
    intro u hu
    obtain ⟨names, text, h⟩ := mem_unresolved_iff.mp hu
    exact h.reason_ne_depthExceeded hsmall
  have hcycle := exists_cycle_iff hsmall
  refine ⟨hlimit, hcycle, ?_⟩
  intro hacyclic hfound
  refine List.eq_nil_iff_forall_not_mem.mpr fun u hu => ?_
  obtain ⟨names, text, h⟩ := mem_unresolved_iff.mp hu
  obtain ⟨value, hvalue⟩ := hfound u.name h.reachable
  have hfresh : u.name ∉ names := by
    intro hmem
    exact hacyclic u.name h.reachable (h.chain.transGen_of_mem h.mentions hmem)
  obtain ⟨hexceeded, -⟩ := (rightReason_of_found hfresh hvalue).mp h.reason
  exact hlimit u hu hexceeded

/-- A name that leads to another, whose value mentions itself. -/
def sideCycle : Context where
  registry := .ofPlain ["A"]
  scopes := [(Scope.empty "scope").insertAll
    [("A", "X", "see \x7b\x7bA:Y\x7d\x7d"), ("A", "Y", "\x7b\x7bA:Y\x7d\x7d")]]

/-- Only two names can be reached from the first of them. -/
theorem mem_of_reachable_sideCycle {name : Name}
    (h : Reachable sideCycle.lookup "\x7b\x7bA:X\x7d\x7d" name) :
    name ∈ [(⟨"A", "X"⟩ : Name), ⟨"A", "Y"⟩] := by
  have hsource : ∀ p ∈ placeholders "\x7b\x7bA:X\x7d\x7d",
      p.name ∈ [(⟨"A", "X"⟩ : Name), ⟨"A", "Y"⟩] := by
    decide +kernel
  have hvalues : ∀ a ∈ [(⟨"A", "X"⟩ : Name), ⟨"A", "Y"⟩],
      ∀ value ∈ (sideCycle.lookup a).value?, ∀ p ∈ placeholders value,
        p.name ∈ [(⟨"A", "X"⟩ : Name), ⟨"A", "Y"⟩] := by
    decide +kernel
  induction h with
  | mention hname =>
      obtain ⟨p, hp, rfl⟩ := hname
      exact hsource p hp
  | @refer a b _ hrefers ih =>
      obtain ⟨value, hvalue, p, hp, rfl⟩ := hrefers
      exact hvalues a ih value (by rw [hvalue]; rfl) p hp

/-- The cycle is entered from the side, and three levels are enough to find it. -/
theorem side_cycle_is_found :
    ∃ u ∈ (sideCycle.expand "\x7b\x7bA:X\x7d\x7d" ⟨3⟩).unresolved, u.reason = .cycle := by
  have hsmall : (linkNames sideCycle.lookup "\x7b\x7bA:X\x7d\x7d").encard <
      (⟨3⟩ : ExpansionOptions).depth := by
    have hsub : linkNames sideCycle.lookup "\x7b\x7bA:X\x7d\x7d" ⊆ {⟨"A", "X"⟩, ⟨"A", "Y"⟩} :=
      fun name hname => by simpa using mem_of_reachable_sideCycle hname.1
    have hpair : ({⟨"A", "X"⟩, ⟨"A", "Y"⟩} : Set Name).encard = 2 := Set.encard_pair (by decide)
    have hdepth : (⟨3⟩ : ExpansionOptions).depth = 3 := by decide
    rw [hdepth]
    exact lt_of_le_of_lt (Set.encard_le_encard hsub) (by rw [hpair]; decide)
  have hx : Mentions "\x7b\x7bA:X\x7d\x7d" ⟨"A", "X"⟩ := by
    decide +kernel
  have hxy : Refers sideCycle.lookup ⟨"A", "X"⟩ ⟨"A", "Y"⟩ :=
    ⟨"see \x7b\x7bA:Y\x7d\x7d", by decide +kernel, by decide +kernel⟩
  have hyy : Refers sideCycle.lookup ⟨"A", "Y"⟩ ⟨"A", "Y"⟩ :=
    ⟨"\x7b\x7bA:Y\x7d\x7d", by decide +kernel, by decide +kernel⟩
  exact (cycles_are_found sideCycle _ ⟨3⟩ hsmall).2.1.mpr
    ⟨⟨"A", "Y"⟩, .refer (.mention hx) hxy, .single hyy⟩

end LinkExpr
