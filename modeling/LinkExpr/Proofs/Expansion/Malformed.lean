import LinkExpr.Proofs.Expansion.Expander
import LinkExpr.Proofs.Expansion.Levels

/-!
# Malformed Values

Malformed text is reported where a text is entered: the source first, and then every value that is
expanded in turn. A value is expanded in turn only if it is a link, which means that it has a
placeholder. So what is malformed in a value is reported if a placeholder stands beside it. A value
with malformed text alone is inserted as it is, and nothing is said about it.

Which values are substituted below the limit is said by the chains of distinct names that lead to
them (`Substituted`). The expander substitutes these values and no others, and what it does with one
of them is a single step.

## Main results

* `mem_errors_expandLevels_iff`: the errors of several levels, by induction on their number.
* `mem_errors_expandToDepth_iff`: the errors of an expansion are those of the source and of the
  links that are substituted.
* `OnChain.step`, `OnChain.of_runs`: every open level is the end of the chain of its active names.
* `substituted_iff`: the values that a run comes upon.
* `malformed_values_are_reported_if_links`: which malformed text is reported.
-/

namespace LinkExpr

/-! ### The errors of one level -/

section Level

variable {lookup : Name → Resolution} {active : List Name}
  {onLink : Placeholder → String → Expansion} {source : String} {p : Placeholder}
  {m : StatusMessage}

/-- A placeholder has the errors of its value, where that is a link. -/
theorem mem_errors_expandToken_iff :
    m ∈ (expandToken lookup active onLink (.placeholder p)).errors ↔
      p.name ∉ active ∧ ∃ value, lookup p.name = .found value ∧ isLink value = true ∧
        m ∈ (onLink p value).errors := by
  rcases expandToken_cases lookup active onLink p with
    ⟨reason, hreason, heq⟩ | ⟨hfresh, value, hlookup, heq⟩
  · rw [heq]
    refine iff_of_false List.not_mem_nil ?_
    rintro ⟨hfresh, value, hlookup, -⟩
    exact ((rightReason_of_found hfresh hlookup).mp hreason).2.1
  · rw [heq, and_iff_right hfresh]
    constructor
    · intro hm
      split at hm
      · exact ⟨value, hlookup, ‹_›, hm⟩
      · exact absurd hm List.not_mem_nil
    · rintro ⟨value', hlookup', hlink, hm⟩
      obtain rfl : value = value' := Resolution.found.inj (hlookup.symm.trans hlookup')
      rwa [if_pos hlink]

/-- An error of a level is one of the text itself or of a value that is a link. -/
theorem mem_errors_expandLevel_iff :
    m ∈ (expandLevel lookup active onLink source).errors ↔
      m ∈ (scan source).malformed.map StatusMessage.of ∨
        ∃ p ∈ placeholders source, p.name ∉ active ∧ ∃ value, lookup p.name = .found value ∧
          isLink value = true ∧ m ∈ (onLink p value).errors := by
  rw [errors_expandLevel, List.mem_append, List.mem_flatMap]
  simp only [mem_errors_expandToken_iff]

end Level

/-! ### The errors of several levels -/

section Levels

variable {lookup : Name → Resolution} {active : List Name} {levels limit : ℕ}
  {source value : String} {m : StatusMessage}

/-- An error that several levels add is about a text that is entered: it stands at the end of a
chain of distinct names that are not active yet, and is the source or a link. -/
def ReportedIn (lookup : Name → Resolution) (levels : ℕ) (active : List Name) (source : String)
    (m : StatusMessage) : Prop :=
  ∃ names text, Chain lookup source names text ∧ (names ++ active).Nodup ∧
    names.length ≤ levels ∧ (names = [] ∨ isLink text = true) ∧
      m ∈ (scan text).malformed.map StatusMessage.of

/-- What is malformed in the text itself is reported first. -/
theorem reportedIn_of_source (hactive : active.Nodup)
    (h : m ∈ (scan source).malformed.map StatusMessage.of) :
    ReportedIn lookup levels active source m :=
  ⟨[], source, .source, hactive, Nat.zero_le levels, .inl rfl, h⟩

/-- A chain whose end is a link begins with a link. -/
theorem Chain.isLink_of_isLink {names : List Name} {text : String}
    (h : Chain lookup source names text) (hlink : isLink text = true) : isLink source = true := by
  obtain ⟨name, hname⟩ := isLink_iff.mp hlink
  exact h.isLink_source hname

/-- **The errors of several levels** are about the texts that are entered. -/
theorem mem_errors_expandLevels_iff (hactive : active.Nodup) :
    m ∈ (expandLevels lookup levels active source).errors ↔
      ReportedIn lookup levels active source m := by
  induction levels generalizing active source with
  | zero =>
      rw [expandLevels, mem_errors_expandLevel_iff]
      constructor
      · rintro (hown | ⟨p, -, -, value, -, -, hvalue⟩)
        · exact reportedIn_of_source hactive hown
        · cases hvalue
      · rintro ⟨names, text, hchain, -, hlength, -, hm⟩
        obtain rfl := List.length_eq_zero_iff.mp (Nat.le_zero.mp hlength)
        cases hchain
        exact .inl hm
  | succ levels ih =>
      rw [expandLevels, mem_errors_expandLevel_iff]
      constructor
      · rintro (hown | ⟨p, hp, hfresh, value, hlookup, hlink, hvalue⟩)
        · exact reportedIn_of_source hactive hown
        · -- the chain begins with the placeholder and goes on from its value
          rw [ih (List.nodup_cons.mpr ⟨hfresh, hactive⟩)] at hvalue
          obtain ⟨names, text, hchain, hdistinct, hlength, hentered, hm⟩ := hvalue
          rw [List.append_cons] at hdistinct
          refine ⟨names ++ [p.name], text,
            chain_concat_iff.mpr ⟨⟨p, hp, rfl⟩, value, hlookup, hchain⟩, hdistinct, ?_,
            .inr ?_, hm⟩
          · rw [List.length_append, List.length_singleton]
            exact Nat.succ_le_succ hlength
          · rcases hentered with rfl | hentered
            · cases hchain
              exact hlink
            · exact hentered
      · rintro ⟨names, text, hchain, hdistinct, hlength, hentered, hm⟩
        rcases List.eq_nil_or_concat' names with rfl | ⟨inner, first, rfl⟩
        · cases hchain
          exact .inl hm
        · have hlink : isLink text = true := hentered.resolve_left (List.concat_ne_nil first inner)
          obtain ⟨⟨p, hp, rfl⟩, value, hlookup, hrest⟩ := chain_concat_iff.mp hchain
          rw [← List.append_cons] at hdistinct
          rw [List.length_append, List.length_singleton] at hlength
          have hfresh : (p.name :: active).Nodup := (List.nodup_append.mp hdistinct).2.1
          refine .inr ⟨p, hp, (List.nodup_cons.mp hfresh).1, value, hlookup,
            hrest.isLink_of_isLink hlink, ?_⟩
          rw [ih hfresh]
          exact ⟨inner, text, hrest, hdistinct, Nat.le_of_succ_le_succ hlength, .inr hlink, hm⟩

/-- A value is substituted below the limit: a chain of distinct names leads to it, which has fewer
names than levels are allowed. -/
def Substituted (lookup : Name → Resolution) (limit : ℕ) (source value : String) : Prop :=
  ∃ names, names ≠ [] ∧ Chain lookup source names value ∧ names.Nodup ∧ names.length < limit

/-- **The errors of an expansion** are those of the source and of the links that are
substituted. -/
theorem mem_errors_expandToDepth_iff (hdeep : 2 ≤ limit) :
    m ∈ (expandToDepth lookup limit source).errors ↔
      m ∈ (scan source).malformed.map StatusMessage.of ∨
        ∃ value, Substituted lookup limit source value ∧ isLink value = true ∧
          m ∈ (scan value).malformed.map StatusMessage.of := by
  rw [expandToDepth, if_neg (by omega), mem_errors_expandLevels_iff .nil]
  constructor
  · rintro ⟨names, text, hchain, hdistinct, hlength, hentered, hm⟩
    rw [List.append_nil] at hdistinct
    rcases eq_or_ne names [] with rfl | hne
    · cases hchain
      exact .inl hm
    · exact .inr ⟨text, ⟨names, hne, hchain, hdistinct, by omega⟩, hentered.resolve_left hne, hm⟩
  · rintro (hown | ⟨value, ⟨names, -, hchain, hdistinct, hlength⟩, hlink, hm⟩)
    · exact reportedIn_of_source .nil hown
    · rw [← List.append_nil names] at hdistinct
      exact ⟨names, value, hchain, hdistinct, by omega, .inr hlink, hm⟩

/-- Nothing is left over exactly if nothing is unresolved, and nothing malformed in the source and
in the links that are substituted. -/
theorem isFullyResolved_expandToDepth_iff (hdeep : 2 ≤ limit) :
    (expandToDepth lookup limit source).isFullyResolved = true ↔
      (expandToDepth lookup limit source).unresolved = [] ∧ (scan source).malformed = [] ∧
        ∀ value, Substituted lookup limit source value → isLink value = true →
          (scan value).malformed = [] := by
  have hnone : ∀ text : String, (∀ m, m ∉ (scan text).malformed.map StatusMessage.of) ↔
      (scan text).malformed = [] := by
    intro text
    rw [← List.eq_nil_iff_forall_not_mem, List.map_eq_nil_iff]
  rw [Expansion.isFullyResolved, Bool.and_eq_true, List.isEmpty_iff, List.isEmpty_iff,
    List.eq_nil_iff_forall_not_mem (l := Expansion.errors _)]
  simp only [mem_errors_expandToDepth_iff hdeep, ← hnone]
  refine and_congr_right fun _ => ⟨fun h => ⟨fun m hm => h m (.inl hm), ?_⟩, ?_⟩
  · intro value hvalue hlink m hm
    exact h m (.inr ⟨value, hvalue, hlink, hm⟩)
  · rintro ⟨hsource, hvalues⟩ m (hm | ⟨value, hvalue, hlink, hm⟩)
    · exact hsource m hm
    · exact hvalues value hvalue hlink m hm

end Levels

/-! ### What the expander comes upon -/

namespace Expander

variable {lookup : Name → Resolution} {maxDepth depth : ℕ} {source text value : String}
  {s t : State} {level : Level} {levels : List Level} {active names : List Name} {p : Placeholder}

/-- Every open level is the text at the end of the chain of the names that are active in it, or
what is still to come of that text. -/
inductive OnChain (lookup : Name → Resolution) (source : String) : List Level → List Name → Prop
  /-- All levels have been left. -/
  | done : OnChain lookup source [] []
  /-- Only the source is open. -/
  | outer {level : Level} : level.tokens ⊆ (scan source).tokens →
      OnChain lookup source [level] []
  /-- A value is open. -/
  | inner {level outer : Level} {levels : List Level} {active : List Name} {name : Name}
      {value : String} : Chain lookup source (name :: active) value →
        level.tokens ⊆ (scan value).tokens → OnChain lookup source (outer :: levels) active →
          OnChain lookup source (level :: outer :: levels) (name :: active)

namespace OnChain

/-- The text of the innermost level. -/
theorem exists_text (h : OnChain lookup source (level :: levels) active) :
    ∃ text, Chain lookup source active text ∧ level.tokens ⊆ (scan text).tokens := by
  cases h with
  | outer htokens => exact ⟨source, .source, htokens⟩
  | inner hchain htokens _ => exact ⟨_, hchain, htokens⟩

/-- The innermost level may be left. -/
theorem tail (h : OnChain lookup source (level :: levels) active) :
    OnChain lookup source levels active.tail := by
  cases h with
  | outer => exact .done
  | inner _ _ hrest => exact hrest

/-- Tokens of the innermost level may be handled. -/
theorem replace {tokens : List Token} (h : OnChain lookup source (level :: levels) active)
    (htokens : tokens ⊆ level.tokens) :
    OnChain lookup source (⟨tokens, level.depth, level.via⟩ :: levels) active := by
  cases h with
  | outer hlevel => exact .outer (List.Subset.trans htokens hlevel)
  | inner hchain hlevel hrest => exact .inner hchain (List.Subset.trans htokens hlevel) hrest

/-- **One step stays on the chain.** -/
theorem step (h : OnChain lookup source s.levels s.active)
    (hstep : step lookup maxDepth s = some t) : OnChain lookup source t.levels t.active := by
  obtain ⟨levels, active, result⟩ := s
  match levels with
  | [] => cases hstep
  | ⟨[], depth, via⟩ :: levels =>
      obtain rfl := Option.some.inj hstep
      exact h.tail
  | ⟨.literal text span :: rest, depth, via⟩ :: levels =>
      obtain rfl := Option.some.inj hstep
      exact h.replace (List.subset_cons_self _ _)
  | ⟨.placeholder p :: rest, depth, via⟩ :: levels =>
      obtain rfl := Option.some.inj hstep
      have hrest : OnChain lookup source (⟨rest, depth, via⟩ :: levels) active :=
        h.replace (List.subset_cons_self _ _)
      rcases expandPlaceholder_cases p depth via ⟨⟨rest, depth, via⟩ :: levels, active, result⟩ with
        ⟨e, heq⟩ | ⟨value, -, hlookup, -, -, -, heq⟩
      · rw [heq]
        exact hrest
      · -- the chain goes on into the value
        rw [heq]
        obtain ⟨text, hchain, htokens⟩ := h.exists_text
        have hp : p ∈ placeholders text :=
          placeholder_mem_tokens_iff.mp (htokens List.mem_cons_self)
        exact .inner (hchain.value ⟨p, hp, rfl⟩ hlookup) (List.Subset.refl _) hrest

/-- **Every run stays on the chain.** -/
theorem of_runs (h : OnChain lookup source s.levels s.active)
    (hruns : Runs lookup maxDepth s t) : OnChain lookup source t.levels t.active := by
  induction hruns with
  | refl => exact h
  | tail _ hstep ih => exact ih.step hstep

theorem start (source : String) :
    OnChain lookup source (start source).levels (start source).active :=
  .outer (List.Subset.refl _)

end OnChain

/-- The next step substitutes a value below the limit: it is the value of the next placeholder,
whose name is not active. -/
def State.Substitutes (lookup : Name → Resolution) (maxDepth : ℕ) (s : State) (value : String) :
    Prop :=
  ∃ p rest depth via levels, s.levels = ⟨.placeholder p :: rest, depth, via⟩ :: levels ∧
    depth < maxDepth ∧ p.name ∉ s.active ∧ lookup p.name = .found value

/-- A value that a run substitutes is one that a chain leads to. -/
theorem State.Substitutes.substituted (h : s.Substitutes lookup maxDepth value)
    (hruns : Runs lookup maxDepth (start source) s) : Substituted lookup maxDepth source value := by
  have hnested := (WellNested.start source).of_runs hruns
  have hon := (OnChain.start source).of_runs hruns
  obtain ⟨p, rest, depth, via, levels, hlevels, hroom, hfresh, hlookup⟩ := h
  have hdepth : depth = s.active.length + 1 := (hlevels ▸ hnested.nested).level_eq.1
  rw [hlevels] at hon
  obtain ⟨text, hchain, htokens⟩ := hon.exists_text
  have hp : p ∈ placeholders text := placeholder_mem_tokens_iff.mp (htokens List.mem_cons_self)
  refine ⟨p.name :: s.active, List.cons_ne_nil _ _, hchain.value ⟨p, hp, rfl⟩ hlookup,
    List.nodup_cons.mpr ⟨hfresh, hnested.distinct⟩, ?_⟩
  rw [List.length_cons]
  omega

/-- **What the expander does with a value that it substitutes** is decided by whether the value is
a link: its malformed text is reported, or else the value is inserted as it is. -/
theorem State.Substitutes.exists_step (h : s.Substitutes lookup maxDepth value)
    (hdeep : 2 ≤ maxDepth) :
    ∃ t, Steps lookup maxDepth s t ∧ t.result = s.result ++
      if isLink value then ⟨"", [], (scan value).malformed.map StatusMessage.of⟩
      else .ofText value := by
  obtain ⟨levels, active, result⟩ := s
  obtain ⟨p, rest, depth, via, levels, rfl, hroom, hfresh, hlookup⟩ := h
  refine ⟨_, rfl, ?_⟩
  rw [expandPlaceholder, if_neg hfresh, hlookup]
  by_cases hlink : isLink value = true
  · simp only [hlink, Bool.true_eq_false, or_false, if_true, if_neg (Nat.not_le.mpr hdeep),
      if_neg (Nat.not_le.mpr hroom)]
    rfl
  · simp only [hlink, Bool.not_eq_true] at hlink ⊢
    simp only [or_true, Bool.false_eq_true, if_true, if_false]
    rfl

/-- Below the limit, a run comes to every placeholder of a text that it enters. -/
theorem exists_runs_to_placeholder (lookup : Name → Resolution) (hroom : depth < maxDepth)
    (hdeep : ¬ maxDepth ≤ 1) (hp : p ∈ placeholders text) (levels : List Level)
    (active : List Name) (result : Expansion) :
    ∃ rest result', Runs lookup maxDepth (State.enter ⟨levels, active, result⟩ text depth
      active.head?) ⟨⟨.placeholder p :: rest, depth, active.head?⟩ :: levels, active, result'⟩ := by
  obtain ⟨front, back, htokens⟩ := List.append_of_mem (placeholder_mem_tokens_iff.mpr hp)
  have hlimit : depth + 1 + (maxDepth - (depth + 1)) = maxDepth := by omega
  have hlinks : RunsLinks lookup maxDepth depth levels active fun p value =>
      expandLevels lookup (maxDepth - (depth + 1)) (p.name :: active) value :=
    runsLinks_below_limit (fun name => expandLevels lookup _ (name :: active)) hdeep
      (Nat.not_le.mpr hroom) fun _ _ _ _ => runs_expandLevels hdeep hlimit
  rw [State.enter, htokens]
  exact ⟨back, _, runs_tokens hlinks front (.placeholder p :: back) _⟩

/-- **A run enters every link that a chain within the limit leads to.** -/
theorem exists_runs_enter (h : Chain lookup source names text) (hdeep : ¬ maxDepth ≤ 1)
    (hdistinct : names.Nodup) (hlength : names.length < maxDepth)
    (hentered : names = [] ∨ isLink text = true) :
    ∃ levels result, Runs lookup maxDepth (start source)
      (State.enter ⟨levels, names, result⟩ text (names.length + 1) names.head?) := by
  induction h with
  | source => exact ⟨[], .empty, .refl⟩
  | @value names text value name hchain hmentions hlookup ih =>
      have hlink : isLink value = true := hentered.resolve_left (List.cons_ne_nil _ _)
      obtain ⟨hfresh, hdistinct⟩ := List.nodup_cons.mp hdistinct
      rw [List.length_cons] at hlength
      obtain ⟨levels, result, henter⟩ := ih hdistinct (by omega)
        (.inr (isLink_iff.mpr ⟨name, hmentions⟩))
      obtain ⟨p, hp, rfl⟩ := hmentions
      obtain ⟨rest, result', hmeet⟩ := exists_runs_to_placeholder lookup hlength hdeep hp levels
        names result
      refine ⟨⟨rest, names.length + 1, names.head?⟩ :: levels, result',
        (henter.trans hmeet).tail ?_⟩
      rw [Steps, step, expandPlaceholder, if_neg hfresh, hlookup]
      simp only [hdeep, hlink, Bool.true_eq_false, or_self, if_false, Nat.not_le.mpr hlength]
      rfl

/-- **The values that are substituted** are those that a run comes upon. -/
theorem substituted_iff (hdeep : 2 ≤ maxDepth) :
    Substituted lookup maxDepth source value ↔
      ∃ s, Runs lookup maxDepth (start source) s ∧ s.Substitutes lookup maxDepth value := by
  constructor
  · rintro ⟨names, hne, hchain, hdistinct, hlength⟩
    have hlimit : ¬ maxDepth ≤ 1 := by omega
    cases hchain with
    | source => exact absurd rfl hne
    | @value names text _ name hchain hmentions hlookup =>
        obtain ⟨hfresh, hdistinct⟩ := List.nodup_cons.mp hdistinct
        rw [List.length_cons] at hlength
        obtain ⟨levels, result, henter⟩ := exists_runs_enter hchain hlimit hdistinct (by omega)
          (.inr (isLink_iff.mpr ⟨name, hmentions⟩))
        obtain ⟨p, hp, rfl⟩ := hmentions
        obtain ⟨rest, result', hmeet⟩ := exists_runs_to_placeholder lookup hlength hlimit hp levels
          names result
        exact ⟨_, henter.trans hmeet, p, rest, _, _, levels, rfl, hlength, hfresh, hlookup⟩
  · rintro ⟨s, hruns, h⟩
    exact h.substituted hruns

end Expander

/-- **Malformed text in values is reported if the values are links.** At a depth of at least two,
the expander comes upon the values that chains of distinct names within the limit lead to, and upon
no others. With one that is a link it reports all that is malformed in it; any other one it
inserts as it is, whatever is malformed in it. So the errors of the expansion are those of the
source and of these links, and it is fully resolved if nothing is unresolved and nothing malformed
in them. -/
theorem malformed_values_are_reported_if_links (c : Context) (source : String)
    (options : ExpansionOptions) (hdeep : 2 ≤ options.depth) :
    (∀ value, Substituted c.lookup options.depth source value ↔
      ∃ s, Expander.Runs c.lookup options.depth (Expander.start source) s ∧
        s.Substitutes c.lookup options.depth value) ∧
    (∀ (s : Expander.State) (value : String), s.Substitutes c.lookup options.depth value →
      ∃ t, Expander.Steps c.lookup options.depth s t ∧ t.result = s.result ++
        if isLink value then ⟨"", [], (scan value).malformed.map StatusMessage.of⟩
        else .ofText value) ∧
    (∀ m, m ∈ (c.expand source options).errors ↔
      m ∈ (scan source).malformed.map StatusMessage.of ∨
        ∃ value, Substituted c.lookup options.depth source value ∧ isLink value = true ∧
          m ∈ (scan value).malformed.map StatusMessage.of) ∧
    ((c.expand source options).isFullyResolved = true ↔
      (c.expand source options).unresolved = [] ∧ (scan source).malformed = [] ∧
        ∀ value, Substituted c.lookup options.depth source value → isLink value = true →
          (scan value).malformed = []) :=
  ⟨fun _ => Expander.substituted_iff hdeep, fun _ _ h => h.exists_step hdeep,
    fun _ => mem_errors_expandToDepth_iff hdeep, isFullyResolved_expandToDepth_iff hdeep⟩

/-- Two values with the same malformed text. A placeholder stands beside it in one of them. -/
def addresses : Context where
  registry := .ofPlain ["P"]
  scopes := [(Scope.empty "scope").insertAll
    [("P", "HOST", "\x7b\x7bhost\x7d\x7d"),
      ("P", "URL", "\x7b\x7bhost\x7d\x7d:\x7b\x7bP:PORT\x7d\x7d"), ("P", "PORT", "80")]]

/-- **The value with malformed text alone is not reported on**: it is substituted below the limit,
and nothing is said about it. -/
theorem malformed_value_alone_goes_unreported :
    ∃ value, addresses.lookup ⟨"P", "HOST"⟩ = .found value ∧
      Substituted addresses.lookup (⟨2⟩ : ExpansionOptions).depth
        "\x7b\x7bP:HOST\x7d\x7d" value ∧
      (scan value).malformed.map (·.fault) = [.missingSeparator] ∧
      (addresses.expand "\x7b\x7bP:HOST\x7d\x7d" ⟨2⟩).errors = [] ∧
      (addresses.expand "\x7b\x7bP:HOST\x7d\x7d" ⟨2⟩).isFullyResolved = true := by
  have hlookup : addresses.lookup ⟨"P", "HOST"⟩ = .found "\x7b\x7bhost\x7d\x7d" := by
    decide +kernel
  have hmentions : Mentions "\x7b\x7bP:HOST\x7d\x7d" ⟨"P", "HOST"⟩ := by decide +kernel
  refine ⟨_, hlookup, ⟨[⟨"P", "HOST"⟩], List.cons_ne_nil _ _,
    .value .source hmentions hlookup, List.pairwise_singleton _ _, by decide⟩, ?_, ?_, ?_⟩ <;>
  decide +kernel

/-- The malformed text beside a placeholder is reported, and so the expansion is not resolved. -/
theorem malformed_text_beside_placeholder_is_reported :
    (∃ m ∈ (addresses.expand "\x7b\x7bP:URL\x7d\x7d \x7b\x7bP:HOST\x7d\x7d" ⟨2⟩).errors,
      m.message = "placeholder `\x7b\x7bhost\x7d\x7d` is missing a `:` between namespace and " ++
        "key (help: placeholders are written as `\x7b\x7bNAMESPACE:KEY\x7d\x7d`)") ∧
    (addresses.expand "\x7b\x7bP:URL\x7d\x7d \x7b\x7bP:HOST\x7d\x7d" ⟨2⟩).isFullyResolved =
      false := by
  have hdeep : 2 ≤ (⟨2⟩ : ExpansionOptions).depth := by decide
  obtain ⟨-, -, herrors, hresolved⟩ := malformed_values_are_reported_if_links addresses
    "\x7b\x7bP:URL\x7d\x7d \x7b\x7bP:HOST\x7d\x7d" ⟨2⟩ hdeep
  have hlookup : addresses.lookup ⟨"P", "URL"⟩ =
      .found "\x7b\x7bhost\x7d\x7d:\x7b\x7bP:PORT\x7d\x7d" := by
    decide +kernel
  have hmentions : Mentions "\x7b\x7bP:URL\x7d\x7d \x7b\x7bP:HOST\x7d\x7d" ⟨"P", "URL"⟩ := by
    decide +kernel
  have hsubstituted : Substituted addresses.lookup (⟨2⟩ : ExpansionOptions).depth
      "\x7b\x7bP:URL\x7d\x7d \x7b\x7bP:HOST\x7d\x7d"
      "\x7b\x7bhost\x7d\x7d:\x7b\x7bP:PORT\x7d\x7d" :=
    ⟨[⟨"P", "URL"⟩], List.cons_ne_nil _ _, .value .source hmentions hlookup,
      List.pairwise_singleton _ _, by decide⟩
  have hlink : isLink "\x7b\x7bhost\x7d\x7d:\x7b\x7bP:PORT\x7d\x7d" = true := by decide +kernel
  constructor
  · refine ⟨_, (herrors _).mpr (.inr ⟨_, hsubstituted, hlink, ?_⟩), rfl⟩
    decide +kernel
  · rw [Bool.eq_false_iff]
    intro h
    have hnone := (hresolved.mp h).2.2 _ hsubstituted hlink
    revert hnone
    decide +kernel

end LinkExpr
