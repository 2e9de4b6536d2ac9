import LinkExpr.Proofs.Expansion.References

/-!
# Unresolved Placeholders

Which placeholders an expansion leaves as they are written. An expansion walks along chains of
distinct names, and what it leaves stands in the text at the end of such a chain. The reason is
decided by the names of the chain, by the lookup and by how long the chain is (`RightReason`), in
this order.

The description is exact. An expansion reports nothing else (soundness), and it walks along every
chain of distinct names that is not too long, so that it reports everything that is to be reported
(completeness).

## Main results

* `expandToken_cases`: what a placeholder can become.
* `mem_unresolved_expandLevel_iff`: one level, whatever is done with values that are links.
* `mem_unresolved_expandLevels_iff`: several levels, by induction on their number.
* `mem_unresolved_iff`: an expansion leaves exactly the placeholders that are `Justified`.
-/

namespace LinkExpr

/-! ### Reasons -/

/-- The reason for which a placeholder is left, given the names that are active and whether the
limit of the depth is reached. A placeholder that is not left has no right reason. -/
structure RightReason (lookup : Name → Resolution) (active : List Name) (atLimit : Prop)
    (name : Name) (reason : Reason) : Prop where
  cycle_iff : reason = .cycle ↔ name ∈ active
  notFound_iff : name ∉ active → (reason = .notFound ↔ lookup name = .notFound)
  unknownNamespace_iff :
    name ∉ active → (reason = .unknownNamespace ↔ lookup name = .unknownNamespace)
  depthExceeded_iff : name ∉ active → (reason = .depthExceeded ↔
    atLimit ∧ ∃ value, lookup name = .found value ∧ isLink value = true)

section Reasons

variable {lookup : Name → Resolution} {active : List Name} {atLimit : Prop} {name : Name}
  {reason : Reason} {value : String}

/-- An active name is left for one reason only. -/
theorem rightReason_of_mem (hmem : name ∈ active) :
    RightReason lookup active atLimit name reason ↔ reason = .cycle := by
  constructor
  · intro h
    exact h.cycle_iff.mpr hmem
  · rintro rfl
    exact ⟨⟨fun _ => hmem, fun _ => rfl⟩, absurd hmem, absurd hmem, absurd hmem⟩

theorem rightReason_of_notFound (hfresh : name ∉ active) (hlookup : lookup name = .notFound) :
    RightReason lookup active atLimit name reason ↔ reason = .notFound := by
  constructor
  · intro h
    exact (h.notFound_iff hfresh).mpr hlookup
  · rintro rfl
    constructor <;> simp [hfresh, hlookup]

theorem rightReason_of_unknownNamespace (hfresh : name ∉ active)
    (hlookup : lookup name = .unknownNamespace) :
    RightReason lookup active atLimit name reason ↔ reason = .unknownNamespace := by
  constructor
  · intro h
    exact (h.unknownNamespace_iff hfresh).mpr hlookup
  · rintro rfl
    constructor <;> simp [hfresh, hlookup]

/-- A name that has a value is left only at the limit, and only if the value is a link. -/
theorem rightReason_of_found (hfresh : name ∉ active) (hlookup : lookup name = .found value) :
    RightReason lookup active atLimit name reason ↔
      reason = .depthExceeded ∧ atLimit ∧ isLink value = true := by
  constructor
  · intro h
    cases reason with
    | cycle => exact absurd (h.cycle_iff.mp rfl) hfresh
    | notFound =>
        have hnone := (h.notFound_iff hfresh).mp rfl
        rw [hlookup] at hnone
        cases hnone
    | unknownNamespace =>
        have hnone := (h.unknownNamespace_iff hfresh).mp rfl
        rw [hlookup] at hnone
        cases hnone
    | depthExceeded =>
        obtain ⟨hlimit, value', hfound, hlink⟩ := (h.depthExceeded_iff hfresh).mp rfl
        rw [hlookup] at hfound
        obtain rfl := Resolution.found.inj hfound
        exact ⟨rfl, hlimit, hlink⟩
  · rintro ⟨rfl, hlimit, hlink⟩
    constructor <;> simp [hfresh, hlookup, hlimit, hlink]

/-- The limit adds one reason, for names whose value is a link. -/
theorem rightReason_at_limit_iff :
    RightReason lookup active True name reason ↔
      RightReason lookup active False name reason ∨
        name ∉ active ∧ ∃ value, lookup name = .found value ∧ isLink value = true ∧
          reason = .depthExceeded := by
  by_cases hmem : name ∈ active
  · simp [rightReason_of_mem hmem, hmem]
  · cases hlookup : lookup name with
    | notFound => simp [rightReason_of_notFound hmem hlookup]
    | unknownNamespace => simp [rightReason_of_unknownNamespace hmem hlookup]
    | found value => simp [rightReason_of_found hmem hlookup, hmem, and_comm]

end Reasons

/-! ### One level -/

section Level

variable {lookup : Name → Resolution} {active : List Name} {source : String} {p : Placeholder}
  {onLink : Placeholder → String → Expansion} {u : Unresolved}

theorem mem_unresolved_concat {es : List Expansion} :
    u ∈ (Expansion.concat es).unresolved ↔ ∃ e ∈ es, u ∈ e.unresolved := by
  induction es with
  | nil => simp [Expansion.empty]
  | cons e es ih => simp [ih]

/-- **What a placeholder can become**: it is left for the right reason, or replaced by its value,
which is inserted as it is or handled as a link. -/
theorem expandToken_cases (lookup : Name → Resolution) (active : List Name)
    (onLink : Placeholder → String → Expansion) (p : Placeholder) :
    (∃ reason, RightReason lookup active False p.name reason ∧
      expandToken lookup active onLink (.placeholder p) =
        .ofUnresolved (.ofPlaceholder p active.head? reason)) ∨
    p.name ∉ active ∧ ∃ value, lookup p.name = .found value ∧
      expandToken lookup active onLink (.placeholder p) =
        if isLink value then onLink p value else .ofText value := by
  rw [expandToken]
  by_cases hmem : p.name ∈ active
  · exact .inl ⟨.cycle, (rightReason_of_mem hmem).mpr rfl, if_pos hmem⟩
  · rw [if_neg hmem]
    cases hlookup : lookup p.name with
    | notFound => exact .inl ⟨.notFound, (rightReason_of_notFound hmem hlookup).mpr rfl, rfl⟩
    | unknownNamespace =>
        exact .inl ⟨.unknownNamespace, (rightReason_of_unknownNamespace hmem hlookup).mpr rfl, rfl⟩
    | found value => exact .inr ⟨hmem, value, rfl, rfl⟩

/-- A placeholder is left itself, or something is left in its value. -/
theorem mem_unresolved_expandToken_iff :
    u ∈ (expandToken lookup active onLink (.placeholder p)).unresolved ↔
      (∃ reason, RightReason lookup active False p.name reason ∧
        u = .ofPlaceholder p active.head? reason) ∨
      p.name ∉ active ∧ ∃ value, lookup p.name = .found value ∧ isLink value = true ∧
        u ∈ (onLink p value).unresolved := by
  rw [expandToken]
  by_cases hmem : p.name ∈ active
  · simp [hmem, rightReason_of_mem hmem, Expansion.ofUnresolved]
  · rw [if_neg hmem]
    cases hlookup : lookup p.name with
    | notFound => simp [rightReason_of_notFound hmem hlookup, Expansion.ofUnresolved]
    | unknownNamespace =>
        simp [rightReason_of_unknownNamespace hmem hlookup, Expansion.ofUnresolved]
    | found value =>
        by_cases hlink : isLink value = true
        · simp [rightReason_of_found hmem hlookup, hlink, hmem]
        · simp [rightReason_of_found hmem hlookup, hlink, Expansion.ofText]

/-- **What one level leaves**: some placeholder of its text, or something in the value of one. -/
theorem mem_unresolved_expandLevel_iff :
    u ∈ (expandLevel lookup active onLink source).unresolved ↔
      ∃ p ∈ placeholders source,
        (∃ reason, RightReason lookup active False p.name reason ∧
          u = .ofPlaceholder p active.head? reason) ∨
        p.name ∉ active ∧ ∃ value, lookup p.name = .found value ∧ isLink value = true ∧
          u ∈ (onLink p value).unresolved := by
  simp only [expandLevel, Expansion.unresolved_append, List.nil_append, mem_unresolved_concat,
    List.mem_map, placeholders, Scan.placeholders, List.mem_filterMap]
  constructor
  · rintro ⟨e, ⟨token, htoken, rfl⟩, hu⟩
    cases token with
    | literal text span => simp [expandToken, Expansion.ofText] at hu
    | placeholder p =>
        exact ⟨p, ⟨.placeholder p, htoken, rfl⟩, mem_unresolved_expandToken_iff.mp hu⟩
  · rintro ⟨p, ⟨token, htoken, hp⟩, hu⟩
    cases token with
    | literal text span => cases hp
    | placeholder q =>
        obtain rfl := Option.some.inj hp
        exact ⟨_, ⟨.placeholder q, htoken, rfl⟩, mem_unresolved_expandToken_iff.mpr hu⟩

end Level

/-! ### Several levels -/

section Levels

variable {lookup : Name → Resolution} {active : List Name} {levels limit : ℕ}
  {source : String} {u : Unresolved}

/-- What is left when values are expanded for a number of further levels: a placeholder at the end
of a chain of names that are distinct and not active yet. -/
def LeftBehind (lookup : Name → Resolution) (levels : ℕ) (active : List Name) (source : String)
    (u : Unresolved) : Prop :=
  ∃ names text, Chain lookup source names text ∧ (names ++ active).Nodup ∧
    names.length ≤ levels ∧ ∃ p ∈ placeholders text, ∃ reason,
      RightReason lookup (names ++ active) (names.length = levels) p.name reason ∧
        u = .ofPlaceholder p (names ++ active).head? reason

/-- What is left of the text itself stands at the end of the chain without names. -/
theorem leftBehind_of_source (hactive : active.Nodup) {p : Placeholder}
    (hp : p ∈ placeholders source) {reason : Reason}
    (hreason : RightReason lookup active (0 = levels) p.name reason) :
    LeftBehind lookup levels active source (.ofPlaceholder p active.head? reason) :=
  ⟨[], source, .source, hactive, Nat.zero_le levels, p, hp, reason, hreason, rfl⟩

theorem mem_unresolved_expandLevels_zero_iff (hactive : active.Nodup) :
    u ∈ (expandLevels lookup 0 active source).unresolved ↔
      LeftBehind lookup 0 active source u := by
  rw [expandLevels, mem_unresolved_expandLevel_iff]
  constructor
  · rintro ⟨p, hp, ⟨reason, hreason, rfl⟩ | ⟨hfresh, value, hlookup, hlink, hu⟩⟩
    · refine leftBehind_of_source hactive hp ?_
      rw [eq_self, rightReason_at_limit_iff]
      exact .inl hreason
    · obtain rfl := List.mem_singleton.mp hu
      refine leftBehind_of_source hactive hp ?_
      rw [eq_self, rightReason_at_limit_iff]
      exact .inr ⟨hfresh, value, hlookup, hlink, rfl⟩
  · rintro ⟨names, text, hchain, -, hlength, p, hp, reason, hreason, rfl⟩
    obtain rfl := List.length_eq_zero_iff.mp (Nat.le_zero.mp hlength)
    cases hchain
    rw [List.length_nil, eq_self, rightReason_at_limit_iff] at hreason
    rcases hreason with hreason | ⟨hfresh, value, hlookup, hlink, rfl⟩
    · exact ⟨p, hp, .inl ⟨reason, hreason, rfl⟩⟩
    · exact ⟨p, hp, .inr ⟨hfresh, value, hlookup, hlink, List.mem_singleton.mpr rfl⟩⟩

/-- **What several levels leave** stands at the end of chains of distinct names. -/
theorem mem_unresolved_expandLevels_iff (hactive : active.Nodup) :
    u ∈ (expandLevels lookup levels active source).unresolved ↔
      LeftBehind lookup levels active source u := by
  induction levels generalizing active source with
  | zero => exact mem_unresolved_expandLevels_zero_iff hactive
  | succ levels ih =>
      have hbelow : (0 = levels + 1) = False := eq_false (Nat.succ_ne_zero levels).symm
      rw [expandLevels, mem_unresolved_expandLevel_iff]
      constructor
      · rintro ⟨p, hp, ⟨reason, hreason, rfl⟩ | ⟨hfresh, value, hlookup, -, hu⟩⟩
        · exact leftBehind_of_source hactive hp (hbelow ▸ hreason)
        · -- the chain begins with the placeholder and goes on from its value
          rw [ih (List.nodup_cons.mpr ⟨hfresh, hactive⟩)] at hu
          obtain ⟨names, text, hchain, hdistinct, hlength, q, hq, reason, hreason, rfl⟩ := hu
          rw [List.append_cons] at hdistinct hreason ⊢
          refine ⟨names ++ [p.name], text,
            chain_concat_iff.mpr ⟨⟨p, hp, rfl⟩, value, hlookup, hchain⟩, hdistinct, ?_,
            q, hq, reason, ?_, rfl⟩
          · rw [List.length_append, List.length_singleton]
            exact Nat.succ_le_succ hlength
          · rw [List.length_append, List.length_singleton, Nat.succ_inj]
            exact hreason
      · rintro ⟨names, text, hchain, hdistinct, hlength, q, hq, reason, hreason, rfl⟩
        rcases List.eq_nil_or_concat' names with rfl | ⟨inner, first, rfl⟩
        · cases hchain
          exact ⟨q, hq, .inl ⟨reason, hbelow ▸ hreason, rfl⟩⟩
        · obtain ⟨⟨p, hp, rfl⟩, value, hlookup, hrest⟩ := chain_concat_iff.mp hchain
          rw [← List.append_cons] at hdistinct hreason
          have hfresh : (p.name :: active).Nodup := (List.nodup_append.mp hdistinct).2.1
          refine ⟨p, hp, .inr ⟨(List.nodup_cons.mp hfresh).1, value, hlookup,
            hrest.isLink_source ⟨q, hq, rfl⟩, ?_⟩⟩
          rw [ih hfresh]
          rw [List.length_append, List.length_singleton] at hlength hreason
          rw [Nat.succ_inj] at hreason
          rw [← List.append_cons]
          exact ⟨inner, text, hrest, hdistinct, Nat.le_of_succ_le_succ hlength, q, hq, reason,
            hreason, rfl⟩

/-! ### Expansions -/

/-- A placeholder is left for a good reason: it stands in the text at the end of a chain of
distinct names, in the value of the innermost one, and the reason is right for that chain. -/
structure Justified (lookup : Name → Resolution) (limit : ℕ) (source : String) (names : List Name)
    (text : String) (u : Unresolved) : Prop where
  chain : Chain lookup source names text
  distinct : names.Nodup
  bounded : names.length ≤ limit - 1
  placed : ∃ p ∈ placeholders text, u = .ofPlaceholder p names.head? u.reason
  reason : RightReason lookup names (2 ≤ limit ∧ names.length = limit - 1) u.name u.reason

/-- **An expansion leaves exactly the placeholders that are justified.** -/
theorem mem_unresolved_iff :
    u ∈ (expandToDepth lookup limit source).unresolved ↔
      ∃ names text, Justified lookup limit source names text u := by
  by_cases hlimit : limit ≤ 1
  · have hshallow : (2 ≤ limit ∧ 0 = limit - 1) = False := eq_false fun h => by omega
    rw [expandToDepth, if_pos hlimit, mem_unresolved_expandLevel_iff]
    constructor
    · rintro ⟨p, hp, ⟨reason, hreason, rfl⟩ | ⟨-, value, -, -, hu⟩⟩
      · exact ⟨[], source, .source, .nil, Nat.zero_le _, ⟨p, hp, rfl⟩, hshallow ▸ hreason⟩
      · exact absurd hu List.not_mem_nil
    · rintro ⟨names, text, hchain, -, hlength, ⟨p, hp, hu⟩, hreason⟩
      have hnil : names = [] := List.length_eq_zero_iff.mp (by omega)
      subst hnil
      cases hchain
      have hname : u.name = p.name := congrArg Unresolved.name hu
      exact ⟨p, hp, .inl ⟨u.reason, hname ▸ hshallow ▸ hreason, hu⟩⟩
  · have hdeep : ∀ n, (2 ≤ limit ∧ n = limit - 1) = (n = limit - 1) :=
      fun n => propext ⟨And.right, fun h => ⟨by omega, h⟩⟩
    rw [expandToDepth, if_neg hlimit, mem_unresolved_expandLevels_iff .nil]
    constructor
    · rintro ⟨names, text, hchain, hdistinct, hlength, p, hp, reason, hreason, rfl⟩
      rw [List.append_nil] at hdistinct hreason ⊢
      rw [← hdeep] at hreason
      exact ⟨names, text, hchain, hdistinct, hlength, ⟨p, hp, rfl⟩, hreason⟩
    · rintro ⟨names, text, hchain, hdistinct, hlength, ⟨p, hp, hu⟩, hreason⟩
      have hname : u.name = p.name := congrArg Unresolved.name hu
      rw [← List.append_nil names] at hdistinct hu
      refine ⟨names, text, hchain, hdistinct, hlength, p, hp, u.reason, ?_, hu⟩
      rw [hdeep] at hreason
      rw [List.append_nil, ← hname]
      exact hreason

end Levels

end LinkExpr
