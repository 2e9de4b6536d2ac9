import LinkExpr.Proofs.Expansion.Unresolved

/-!
# The Expander

An expander expands a text step by step, with everything it keeps in the open: the levels of text
that it has entered, each with the tokens still to come, the depth of the level and the name that
it was entered through; the names that are active; and what it has written down.

Every step either handles one token of the innermost level or leaves that level. The levels, the
depths, the names of origin and the active names are kept apart, and nothing in a step compares
them. That they stay in step is the invariant of all runs (`WellNested`), and the bound on the
number of open levels follows from it.

## Main results

* `WellNested.step`, `WellNested.of_runs`: one step keeps the invariant, and so does every run.
* `runs_expandLevels`: the expander enters a level, and leaves it with what the level expands to.
* `runs_expand`: the expander comes to an end, with the expansion of its text.
* `every_report_is_justified`: what an expansion reports, and why.
-/

namespace LinkExpr

namespace Expander

/-! ### States and steps -/

/-- A level of text that was entered and not left yet. -/
structure Level where
  /-- The tokens still to come. -/
  tokens : List Token
  /-- How deep the level is; the text itself is at a depth of one. -/
  depth : ℕ
  /-- The name whose value the level is. -/
  via : Option Name

/-- What an expander keeps; the innermost level and the innermost name come first. -/
structure State where
  levels : List Level
  active : List Name
  result : Expansion

namespace State

/-- Writes something down. -/
def write (s : State) (e : Expansion) : State := { s with result := s.result ++ e }

/-- Leaves a placeholder as it is written. -/
def leave (s : State) (p : Placeholder) (via : Option Name) (reason : Reason) : State :=
  s.write (.ofUnresolved (.ofPlaceholder p via reason))

/-- Enters a text: what is malformed in it is reported, and its tokens are those to come. -/
def enter (s : State) (source : String) (depth : ℕ) (via : Option Name) : State :=
  { s.write ⟨"", [], (scan source).malformed.map StatusMessage.of⟩ with
    levels := ⟨(scan source).tokens, depth, via⟩ :: s.levels }

end State

/-- Handles a placeholder of a level. The checks come in this order: whether the name is active,
what the lookup finds, whether the value is to be expanded, and whether the limit is reached. -/
def expandPlaceholder (lookup : Name → Resolution) (maxDepth : ℕ) (p : Placeholder) (depth : ℕ)
    (via : Option Name) (s : State) : State :=
  if p.name ∈ s.active then s.leave p via .cycle
  else match lookup p.name with
    | .notFound => s.leave p via .notFound
    | .unknownNamespace => s.leave p via .unknownNamespace
    | .found value =>
        if maxDepth ≤ 1 ∨ isLink value = false then s.write (.ofText value)
        else if maxDepth ≤ depth then s.leave p via .depthExceeded
        else
          let active := p.name :: s.active
          { s with active }.enter value (depth + 1) active.head?

/-- One step: handles the next token of the innermost level, or leaves the level if there is none.
The name that a level was entered through is active as long as the level is open. -/
def step (lookup : Name → Resolution) (maxDepth : ℕ) : State → Option State
  | ⟨[], _, _⟩ => none
  | ⟨⟨[], _, _⟩ :: levels, active, result⟩ => some ⟨levels, active.tail, result⟩
  | ⟨⟨.literal text _ :: rest, depth, via⟩ :: levels, active, result⟩ =>
      some (State.write ⟨⟨rest, depth, via⟩ :: levels, active, result⟩ (.ofText text))
  | ⟨⟨.placeholder p :: rest, depth, via⟩ :: levels, active, result⟩ =>
      some (expandPlaceholder lookup maxDepth p depth via
        ⟨⟨rest, depth, via⟩ :: levels, active, result⟩)

/-- One step as a relation. -/
def Steps (lookup : Name → Resolution) (maxDepth : ℕ) (s t : State) : Prop :=
  step lookup maxDepth s = some t

/-- Any number of steps. -/
def Runs (lookup : Name → Resolution) (maxDepth : ℕ) : State → State → Prop :=
  Relation.ReflTransGen (Steps lookup maxDepth)

/-- The state that an expansion starts in. -/
def start (source : String) : State := State.enter ⟨[], [], .empty⟩ source 1 none

variable {lookup : Name → Resolution} {maxDepth : ℕ} {s t : State}

/-- Handling a placeholder either writes something down or enters the value of its name, which is a
link. -/
theorem expandPlaceholder_cases (p : Placeholder) (depth : ℕ) (via : Option Name) (s : State) :
    (∃ e, expandPlaceholder lookup maxDepth p depth via s = s.write e) ∨
      ∃ value, p.name ∉ s.active ∧ lookup p.name = .found value ∧ isLink value = true ∧
        2 ≤ maxDepth ∧ depth < maxDepth ∧
          expandPlaceholder lookup maxDepth p depth via s =
            State.enter { s with active := p.name :: s.active } value (depth + 1)
              (some p.name) := by
  rw [expandPlaceholder]
  split
  · exact .inl ⟨_, rfl⟩
  · rename_i hfresh
    split
    · exact .inl ⟨_, rfl⟩
    · exact .inl ⟨_, rfl⟩
    · rename_i value hlookup
      split
      · exact .inl ⟨_, rfl⟩
      · rename_i hdeep
        split
        · exact .inl ⟨_, rfl⟩
        · rename_i hroom
          rw [not_or, Bool.not_eq_false] at hdeep
          exact .inr ⟨value, hfresh, hlookup, hdeep.2, by omega, by omega, rfl⟩

/-! ### Levels and active names stay in step -/

/-- Levels and active names belong together: there is one active name for each level but the
outermost, which is the name that the level was entered through. -/
inductive Nested : List Level → List Name → Prop
  /-- All levels have been left. -/
  | done : Nested [] []
  /-- Only the text itself is open. -/
  | outer (tokens : List Token) : Nested [⟨tokens, 1, none⟩] []
  /-- A value is open. -/
  | inner {level : Level} {levels : List Level} {active : List Name} (tokens : List Token)
      (name : Name) : Nested (level :: levels) active →
        Nested (⟨tokens, active.length + 2, some name⟩ :: level :: levels) (name :: active)

namespace Nested

variable {level : Level} {levels : List Level} {active : List Name}

/-- The depth of the innermost level counts the active names, and the innermost of them is where
the level comes from. -/
theorem level_eq (h : Nested (level :: levels) active) :
    level.depth = active.length + 1 ∧ level.via = active.head? := by
  cases h with
  | outer => exact ⟨rfl, rfl⟩
  | inner => exact ⟨rfl, rfl⟩

/-- At most one level is open that no active name belongs to. -/
theorem length_le (h : Nested levels active) : levels.length ≤ active.length + 1 := by
  induction h with
  | done => exact Nat.zero_le _
  | outer => exact le_refl _
  | inner _ _ _ ih => exact Nat.succ_le_succ ih

/-- The innermost level may be left. -/
theorem tail (h : Nested (level :: levels) active) : Nested levels active.tail := by
  cases h with
  | outer => exact .done
  | inner _ _ hrest => exact hrest

/-- The tokens of the innermost level may change. -/
theorem replace (h : Nested (level :: levels) active) (tokens : List Token) :
    Nested (⟨tokens, level.depth, level.via⟩ :: levels) active := by
  cases h with
  | outer => exact .outer tokens
  | inner _ name hrest => exact .inner tokens name hrest

end Nested

/-- The invariant of all runs: the levels and the active names belong together, the active names
are distinct, and there are fewer of them than levels are allowed. -/
structure WellNested (maxDepth : ℕ) (s : State) : Prop where
  nested : Nested s.levels s.active
  distinct : s.active.Nodup
  bounded : s.active.length ≤ maxDepth - 1

namespace WellNested

/-- What is written down does not matter for the invariant. -/
theorem write (h : WellNested maxDepth s) (e : Expansion) : WellNested maxDepth (s.write e) :=
  ⟨h.nested, h.distinct, h.bounded⟩

theorem start (source : String) : WellNested maxDepth (start source) :=
  ⟨.outer _, .nil, Nat.zero_le _⟩

/-- The tokens of the innermost level do not matter for the invariant. -/
theorem replace {level : Level} {levels : List Level} {active : List Name} {result : Expansion}
    (h : WellNested maxDepth ⟨level :: levels, active, result⟩) (tokens : List Token) :
    WellNested maxDepth ⟨⟨tokens, level.depth, level.via⟩ :: levels, active, result⟩ :=
  ⟨h.nested.replace tokens, h.distinct, h.bounded⟩

/-- Handling a placeholder keeps the invariant. -/
theorem expandPlaceholder {level : Level} {levels : List Level} {active : List Name}
    {result : Expansion} (h : WellNested maxDepth ⟨level :: levels, active, result⟩)
    (p : Placeholder) :
    WellNested maxDepth (expandPlaceholder lookup maxDepth p level.depth level.via
      ⟨level :: levels, active, result⟩) := by
  have hdepth : level.depth = active.length + 1 := h.nested.level_eq.1
  rcases expandPlaceholder_cases p level.depth level.via ⟨level :: levels, active, result⟩ with
    ⟨e, heq⟩ | ⟨value, hfresh, -, -, -, hroom, heq⟩
  · rw [heq]
    exact h.write e
  · -- a further level is entered, and its name becomes active
    rw [heq]
    refine ⟨?_, List.nodup_cons.mpr ⟨hfresh, h.distinct⟩, ?_⟩
    · rw [hdepth]
      exact .inner _ p.name h.nested
    · show (p.name :: active).length ≤ maxDepth - 1
      rw [List.length_cons]
      omega

/-- **One step keeps the invariant.** -/
theorem step (h : WellNested maxDepth s) (hstep : step lookup maxDepth s = some t) :
    WellNested maxDepth t := by
  obtain ⟨levels, active, result⟩ := s
  match levels with
  | [] => cases hstep
  | ⟨[], depth, via⟩ :: levels =>
      obtain rfl := Option.some.inj hstep
      refine ⟨h.nested.tail, h.distinct.tail, ?_⟩
      have hbounded : active.length ≤ maxDepth - 1 := h.bounded
      show active.tail.length ≤ maxDepth - 1
      rw [List.length_tail]
      omega
  | ⟨.literal text span :: rest, depth, via⟩ :: levels =>
      obtain rfl := Option.some.inj hstep
      exact (h.replace rest).write _
  | ⟨.placeholder p :: rest, depth, via⟩ :: levels =>
      obtain rfl := Option.some.inj hstep
      exact (h.replace rest).expandPlaceholder p

/-- **Every run keeps the invariant.** -/
theorem of_runs (h : WellNested maxDepth s) (hruns : Runs lookup maxDepth s t) :
    WellNested maxDepth t := by
  induction hruns with
  | refl => exact h
  | tail _ hstep ih => exact ih.step hstep

/-- There are no more open levels than the limit, or one if nothing is to be expanded. -/
theorem levels_length_le (h : WellNested maxDepth s) : s.levels.length ≤ max maxDepth 1 := by
  have hlength := h.nested.length_le
  have hbounded := h.bounded
  omega

end WellNested

/-! ### Runs -/

section Runs

variable {active : List Name} {levels : List Level} {depth : ℕ} {result : Expansion}
  {source : String} {onLink : Placeholder → String → Expansion}

/-- What a run does with a value that is a link, from handling its placeholder to the token
behind it. -/
def RunsLinks (lookup : Name → Resolution) (maxDepth depth : ℕ) (levels : List Level)
    (active : List Name) (onLink : Placeholder → String → Expansion) : Prop :=
  ∀ p value rest result, p.name ∉ active → lookup p.name = .found value → isLink value = true →
    Runs lookup maxDepth ⟨⟨.placeholder p :: rest, depth, active.head?⟩ :: levels, active, result⟩
      ⟨⟨rest, depth, active.head?⟩ :: levels, active, result ++ onLink p value⟩

/-- A token is handled in a run that adds what the token expands to. -/
theorem runs_token (hlinks : RunsLinks lookup maxDepth depth levels active onLink) (token : Token)
    (rest : List Token) (result : Expansion) :
    Runs lookup maxDepth ⟨⟨token :: rest, depth, active.head?⟩ :: levels, active, result⟩
      ⟨⟨rest, depth, active.head?⟩ :: levels, active,
        result ++ expandToken lookup active onLink token⟩ := by
  cases token with
  | literal text span => exact .single rfl
  | placeholder p =>
      rw [expandToken]
      by_cases hmem : p.name ∈ active
      · refine .single ?_
        rw [Steps, step, expandPlaceholder, if_pos hmem, if_pos hmem]
        rfl
      · rw [if_neg hmem]
        cases hlookup : lookup p.name with
        | notFound =>
            refine .single ?_
            rw [Steps, step, expandPlaceholder, if_neg hmem, hlookup]
            rfl
        | unknownNamespace =>
            refine .single ?_
            rw [Steps, step, expandPlaceholder, if_neg hmem, hlookup]
            rfl
        | found value =>
            by_cases hlink : isLink value = true
            · simp only [hlink, if_true]
              exact hlinks p value rest result hmem hlookup hlink
            · refine .single ?_
              rw [Steps, step, expandPlaceholder, if_neg hmem, hlookup]
              simp only [Bool.not_eq_true] at hlink
              simp only [hlink, or_true, if_true]
              rfl

/-- The first tokens of a level are handled in a run that adds what they expand to. -/
theorem runs_tokens (hlinks : RunsLinks lookup maxDepth depth levels active onLink)
    (tokens rest : List Token) (result : Expansion) :
    Runs lookup maxDepth ⟨⟨tokens ++ rest, depth, active.head?⟩ :: levels, active, result⟩
      ⟨⟨rest, depth, active.head?⟩ :: levels, active,
        result ++ .concat (tokens.map (expandToken lookup active onLink))⟩ := by
  induction tokens generalizing result with
  | nil =>
      rw [List.map_nil, Expansion.concat_nil, Expansion.append_empty]
      exact .refl
  | cons token tokens ih =>
      rw [List.map_cons, Expansion.concat_cons, ← Expansion.append_assoc]
      exact (runs_token hlinks token (tokens ++ rest) result).trans (ih _)

/-- A level is entered and handled in a run that adds what its text expands to. -/
theorem runs_expandLevel (hlinks : RunsLinks lookup maxDepth depth levels active onLink)
    (source : String) (result : Expansion) :
    Runs lookup maxDepth (State.enter ⟨levels, active, result⟩ source depth active.head?)
      ⟨⟨[], depth, active.head?⟩ :: levels, active,
        result ++ expandLevel lookup active onLink source⟩ := by
  have htokens := runs_tokens hlinks (scan source).tokens []
    (result ++ ⟨"", [], (scan source).malformed.map StatusMessage.of⟩)
  rw [List.append_nil, Expansion.append_assoc] at htokens
  exact htokens

/-- At the limit a value that is a link is not entered. -/
theorem runsLinks_at_limit (hdeep : ¬ maxDepth ≤ 1) (hlimit : maxDepth ≤ depth) :
    RunsLinks lookup maxDepth depth levels active fun p _ =>
      .ofUnresolved (.ofPlaceholder p active.head? .depthExceeded) := by
  intro p value rest result hmem hlookup hlink
  refine .single ?_
  rw [Steps, step, expandPlaceholder, if_neg hmem, hlookup]
  simp only [hdeep, hlink, Bool.true_eq_false, or_self, if_false, if_pos hlimit]
  rfl

/-- If nothing is to be expanded, a value that is a link is inserted as it is. -/
theorem runsLinks_shallow (hshallow : maxDepth ≤ 1) :
    RunsLinks lookup maxDepth depth levels active fun _ value => .ofText value := by
  intro p value rest result hmem hlookup hlink
  refine .single ?_
  rw [Steps, step, expandPlaceholder, if_neg hmem, hlookup]
  simp only [hshallow, true_or, if_true]
  rfl

/-- Below the limit a value that is a link is entered, and left again with what it expands to: the
active names are those that there were before. -/
theorem runsLinks_below_limit (expandValue : Name → String → Expansion) (hdeep : ¬ maxDepth ≤ 1)
    (hroom : ¬ maxDepth ≤ depth)
    (hvalues : ∀ name value levels result, Runs lookup maxDepth
      (State.enter ⟨levels, name :: active, result⟩ value (depth + 1) (name :: active).head?)
      ⟨⟨[], depth + 1, (name :: active).head?⟩ :: levels, name :: active,
        result ++ expandValue name value⟩) :
    RunsLinks lookup maxDepth depth levels active fun p value => expandValue p.name value := by
  intro p value rest result hmem hlookup hlink
  let behind : State := ⟨⟨rest, depth, active.head?⟩ :: levels, p.name :: active, result⟩
  have henter : Steps lookup maxDepth
      ⟨⟨.placeholder p :: rest, depth, active.head?⟩ :: levels, active, result⟩
      (behind.enter value (depth + 1) (p.name :: active).head?) := by
    rw [Steps, step, expandPlaceholder, if_neg hmem, hlookup]
    simp only [hdeep, hlink, Bool.true_eq_false, or_self, if_false, hroom]
    rfl
  have hvalue : Runs lookup maxDepth (behind.enter value (depth + 1) (p.name :: active).head?)
      ⟨⟨[], depth + 1, (p.name :: active).head?⟩ :: behind.levels, p.name :: active,
        result ++ expandValue p.name value⟩ := hvalues p.name value _ result
  exact (Relation.ReflTransGen.head henter hvalue).tail rfl

/-- **A level is left with what its text expands to**, when its depth and the number of further
levels make up the limit. -/
theorem runs_expandLevels (hdeep : ¬ maxDepth ≤ 1) {further : ℕ}
    (hlimit : depth + further = maxDepth) :
    Runs lookup maxDepth (State.enter ⟨levels, active, result⟩ source depth active.head?)
      ⟨⟨[], depth, active.head?⟩ :: levels, active,
        result ++ expandLevels lookup further active source⟩ := by
  induction further generalizing depth levels active result source with
  | zero => exact runs_expandLevel (runsLinks_at_limit hdeep (Nat.le_of_eq hlimit.symm)) _ _
  | succ further ih =>
      have hroom : ¬ maxDepth ≤ depth := by omega
      have hlevel : depth + 1 + further = maxDepth := by omega
      exact runs_expandLevel (runsLinks_below_limit
        (fun name => expandLevels lookup further (name :: active)) hdeep hroom
        fun _ _ _ _ => ih hlevel) _ _

/-- **The expander comes to an end with the expansion of its text.** -/
theorem runs_expand (source : String) :
    Runs lookup maxDepth (start source) ⟨[], [], expandToDepth lookup maxDepth source⟩ := by
  have hlast : ∀ e : Expansion, Runs lookup maxDepth
      ⟨[⟨[], 1, none⟩], [], .empty ++ e⟩ ⟨[], [], e⟩ := by
    intro e
    rw [Expansion.empty_append]
    exact .single rfl
  rw [start, expandToDepth]
  by_cases hshallow : maxDepth ≤ 1
  · rw [if_pos hshallow]
    exact (runs_expandLevel (runsLinks_shallow hshallow) source .empty).trans (hlast _)
  · rw [if_neg hshallow]
    exact (runs_expandLevels hshallow (by omega)).trans (hlast _)

end Runs

end Expander

/-! ### Reports -/

section Reports

variable {lookup : Name → Resolution} {limit : ℕ} {source text : String} {names : List Name}
  {u : Unresolved}

/-- A report of a cycle witnesses a cycle of references. -/
theorem Justified.transGen_of_cycle (h : Justified lookup limit source names text u)
    (hcycle : u.reason = .cycle) : Relation.TransGen (Refers lookup) u.name u.name := by
  obtain ⟨p, hp, hu⟩ := h.placed
  have hname : u.name = p.name := congrArg Unresolved.name hu
  have hmem : u.name ∈ names := h.reason.cycle_iff.mp hcycle
  exact h.chain.transGen_of_mem ⟨p, hp, hname.symm⟩ hmem

/-- If values are inserted as they are, there is neither a cycle nor a limit to report. -/
theorem Justified.reason_of_shallow (h : Justified lookup limit source names text u)
    (hshallow : limit ≤ 1) : u.reason ≠ .cycle ∧ u.reason ≠ .depthExceeded := by
  have hlength := h.bounded
  have hnil : names = [] := List.length_eq_zero_iff.mp (by omega)
  subst hnil
  have hfresh : u.name ∉ ([] : List Name) := List.not_mem_nil
  refine ⟨fun hcycle => hfresh (h.reason.cycle_iff.mp hcycle), fun hexceeded => ?_⟩
  obtain ⟨⟨hdeep, -⟩, -⟩ := (h.reason.depthExceeded_iff hfresh).mp hexceeded
  omega

end Reports

/-- **Every report of an expansion is justified.** Each placeholder left stands at the end of a
chain of distinct names, no longer than the limit allows, and its reason is right for that chain.
The expander that computes the expansion never has more levels open than the limit, or than one; a
report of a cycle witnesses a cycle of references; and at a depth of at most one neither a cycle
nor the limit is reported. -/
theorem every_report_is_justified (c : Context) (source : String) (options : ExpansionOptions) :
    (∀ u ∈ (c.expand source options).unresolved,
      ∃ names text, Justified c.lookup options.depth source names text u) ∧
    Expander.Runs c.lookup options.depth (Expander.start source)
      ⟨[], [], c.expand source options⟩ ∧
    (∀ s, Expander.Runs c.lookup options.depth (Expander.start source) s →
      s.levels.length ≤ max options.depth 1) ∧
    (∀ u ∈ (c.expand source options).unresolved, u.reason = .cycle →
      Relation.TransGen (Refers c.lookup) u.name u.name) ∧
    (options.maxDepth.toNat ≤ 1 → ∀ u ∈ (c.expand source options).unresolved,
      u.reason ≠ .cycle ∧ u.reason ≠ .depthExceeded) := by
  have hjustified : ∀ u ∈ (c.expand source options).unresolved,
      ∃ names text, Justified c.lookup options.depth source names text u :=
    fun u hu => mem_unresolved_iff.mp hu
  refine ⟨hjustified, Expander.runs_expand source, ?_, ?_, ?_⟩
  · intro s hruns
    exact ((Expander.WellNested.start source).of_runs hruns).levels_length_le
  · intro u hu hcycle
    obtain ⟨names, text, h⟩ := hjustified u hu
    exact h.transGen_of_cycle hcycle
  · intro hshallow u hu
    obtain ⟨names, text, h⟩ := hjustified u hu
    exact h.reason_of_shallow (le_trans (min_le_left _ _) hshallow)

/-- Two names, each of which is the value of the other. -/
def mutualValues : Context where
  registry := .ofPlain ["A"]
  scopes := [(Scope.empty "scope").insertAll
    [("A", "X", "\x7b\x7bA:Y\x7d\x7d"), ("A", "Y", "\x7b\x7bA:X\x7d\x7d")]]

/-- The first of two names that need each other is reported as a cycle, and it is on one. -/
theorem mutual_values_are_reported :
    ∃ u ∈ (mutualValues.expand "\x7b\x7bA:X\x7d\x7d" ⟨8⟩).unresolved, u.reason = .cycle ∧
      Relation.TransGen (Refers mutualValues.lookup) u.name u.name := by
  obtain ⟨u, hu, hcycle⟩ : ∃ u ∈ (mutualValues.expand "\x7b\x7bA:X\x7d\x7d" ⟨8⟩).unresolved,
      u.reason = .cycle := by
    decide +kernel
  have h := every_report_is_justified mutualValues "\x7b\x7bA:X\x7d\x7d" ⟨8⟩
  exact ⟨u, hu, hcycle, h.2.2.2.1 u hu hcycle⟩

end LinkExpr
