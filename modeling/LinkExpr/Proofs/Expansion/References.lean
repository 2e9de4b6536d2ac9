import LinkExpr.Expansion
import LinkExpr.Proofs.Scan.Acceptance
import Mathlib.Logic.Relation

/-!
# References

The values of a context refer to each other: a name refers to the names of the placeholders in its
value. This module describes how a name is reached from a text, without saying anything about an
expansion.

A `Chain` is a way from a text into its values. Its names are listed with the innermost first, the
order in which an expansion keeps its active names. A chain may pass a name twice; the first time
that it does so, it closes a cycle (`Chain.nodup_or_returns`).

## Main results

* `isLink_iff`: a text is a link exactly if it mentions a name.
* `chain_concat_iff`: a chain begins with a placeholder of its text and goes on from the value.
* `Chain.transGen_of_mem`: a chain that comes back to one of its names witnesses a cycle.
* `returns_of_cycle`: a cycle that can be reached is walked into by a chain of distinct names.
-/

namespace LinkExpr

/-! ### Mentioning a name -/

/-- A text has a placeholder of a name. -/
def Mentions (text : String) (name : Name) : Prop := ∃ p ∈ placeholders text, p.name = name

instance (text : String) (name : Name) : Decidable (Mentions text name) :=
  inferInstanceAs (Decidable (∃ p ∈ placeholders text, p.name = name))

/-- A text without an opening marker has no placeholder. -/
theorem placeholders_of_no_open {text : String} (h : splitAtPair? '{' text.toList = none) :
    placeholders text = [] := by
  rw [placeholders_eq, segments_of_no_open h]
  rfl

/-- A text is a link exactly if it mentions a name. -/
theorem isLink_iff {text : String} : isLink text = true ↔ ∃ name, Mentions text name := by
  rw [isLink, Bool.and_eq_true, Bool.not_eq_true', List.isEmpty_eq_false_iff]
  constructor
  · rintro ⟨-, hne⟩
    obtain ⟨p, hp⟩ := List.exists_mem_of_ne_nil _ hne
    exact ⟨p.name, p, hp, rfl⟩
  · rintro ⟨name, p, hp, rfl⟩
    refine ⟨?_, List.ne_nil_of_mem hp⟩
    rw [Option.isSome_iff_ne_none]
    intro hopen
    rw [placeholders_of_no_open hopen] at hp
    exact absurd hp List.not_mem_nil

variable {lookup : Name → Resolution} {source text value : String} {names : List Name}
  {name a b : Name}

/-- The value of one name mentions another. -/
def Refers (lookup : Name → Resolution) (a b : Name) : Prop :=
  ∃ value, lookup a = .found value ∧ Mentions value b

/-- A name is reached from a text, through its placeholders and those of the values found. -/
inductive Reachable (lookup : Name → Resolution) (source : String) : Name → Prop
  | mention {name : Name} : Mentions source name → Reachable lookup source name
  | refer {a b : Name} : Reachable lookup source a → Refers lookup a b → Reachable lookup source b

/-! ### Chains -/

/-- A way from a text into its values: each name is mentioned by the text before it, and its value
is the next text. The innermost name comes first. -/
inductive Chain (lookup : Name → Resolution) (source : String) : List Name → String → Prop
  /-- The way ends where it begins. -/
  | source : Chain lookup source [] source
  /-- The way goes on into the value of a name. -/
  | value {names : List Name} {text value : String} {name : Name} :
      Chain lookup source names text → Mentions text name → lookup name = .found value →
        Chain lookup source (name :: names) value

/-- A chain begins with a name that its text mentions, and goes on from the value of the name. -/
theorem chain_concat_iff :
    Chain lookup source (names ++ [name]) text ↔
      Mentions source name ∧
        ∃ value, lookup name = .found value ∧ Chain lookup value names text := by
  constructor
  · intro h
    induction names generalizing text with
    | nil =>
        cases h with
        | value hchain hmentions hlookup =>
            cases hchain with
            | source => exact ⟨hmentions, text, hlookup, .source⟩
    | cons inner names ih =>
        cases h with
        | value hchain hmentions hlookup =>
            obtain ⟨hfirst, value, hvalue, hrest⟩ := ih hchain
            exact ⟨hfirst, value, hvalue, hrest.value hmentions hlookup⟩
  · rintro ⟨hfirst, value, hvalue, hchain⟩
    induction hchain with
    | source => exact .value .source hfirst hvalue
    | value _ hmentions hlookup ih => exact ih.value hmentions hlookup

namespace Chain

/-- What is mentioned at the end of a chain can be reached. -/
theorem reachable_of_mentions (h : Chain lookup source names text) (hname : Mentions text name) :
    Reachable lookup source name := by
  induction h generalizing name with
  | source => exact .mention hname
  | value _ hmentions hlookup ih => exact .refer (ih hmentions) ⟨_, hlookup, hname⟩

/-- The names of a chain can be reached, and each has a value. -/
theorem reachable_of_mem (h : Chain lookup source names text) (hmem : name ∈ names) :
    Reachable lookup source name := by
  induction h with
  | source => exact absurd hmem List.not_mem_nil
  | value hchain hmentions _ ih =>
      rcases List.mem_cons.mp hmem with rfl | hmem
      · exact hchain.reachable_of_mentions hmentions
      · exact ih hmem

/-- If the end of a chain mentions a name, the text at its beginning is a link. -/
theorem isLink_source (h : Chain lookup source names text) (hname : Mentions text name) :
    isLink source = true := by
  induction h generalizing name with
  | source => exact isLink_iff.mpr ⟨name, hname⟩
  | value _ hmentions _ ih => exact ih hmentions

/-- If the end of a chain mentions a name, the values of all its names are links. -/
theorem isLink_of_mem (h : Chain lookup source names text) (hname : Mentions text name)
    (hmem : a ∈ names) : ∃ value, lookup a = .found value ∧ isLink value = true := by
  induction h generalizing name with
  | source => exact absurd hmem List.not_mem_nil
  | @value names text value inner hchain hmentions hlookup ih =>
      rcases List.mem_cons.mp hmem with rfl | hmem
      · exact ⟨value, hlookup, isLink_iff.mpr ⟨name, hname⟩⟩
      · exact ih hmentions hmem

/-- Every name of a chain refers, step by step, to what is mentioned at its end. -/
theorem transGen_of_mem (h : Chain lookup source names text) (hname : Mentions text b)
    (hmem : a ∈ names) : Relation.TransGen (Refers lookup) a b := by
  induction h generalizing b with
  | source => exact absurd hmem List.not_mem_nil
  | @value names text value inner hchain hmentions hlookup ih =>
      have hrefers : Refers lookup inner b := ⟨value, hlookup, hname⟩
      rcases List.mem_cons.mp hmem with rfl | hmem
      · exact .single hrefers
      · exact (ih hmentions hmem).tail hrefers

/-- A chain can be continued along references. -/
theorem exists_of_transGen (h : Chain lookup source names text) (hname : Mentions text a)
    (hrefers : Relation.TransGen (Refers lookup) a b) :
    ∃ more text', Chain lookup source (more ++ a :: names) text' ∧ Mentions text' b := by
  induction hrefers with
  | single hab =>
      obtain ⟨value, hvalue, hmentions⟩ := hab
      exact ⟨[], value, h.value hname hvalue, hmentions⟩
  | @tail b c _ hbc ih =>
      obtain ⟨more, text', hchain, hmentions⟩ := ih
      obtain ⟨value, hvalue, hc⟩ := hbc
      exact ⟨b :: more, value, hchain.value hmentions hvalue, hc⟩

end Chain

/-- What can be reached is mentioned at the end of a chain. -/
theorem Reachable.exists_chain (h : Reachable lookup source name) :
    ∃ names text, Chain lookup source names text ∧ Mentions text name := by
  induction h with
  | mention hname => exact ⟨[], source, .source, hname⟩
  | @refer a b _ hrefers ih =>
      obtain ⟨names, text, hchain, hmentions⟩ := ih
      obtain ⟨value, hvalue, hb⟩ := hrefers
      exact ⟨a :: names, value, hchain.value hmentions hvalue, hb⟩

/-! ### Coming back -/

/-- A chain of distinct names ends in a text that mentions one of them again. -/
def Returns (lookup : Name → Resolution) (source : String) : Prop :=
  ∃ names text name, Chain lookup source names text ∧ names.Nodup ∧ Mentions text name ∧
    name ∈ names

/-- The first time that a chain passes a name again, it has come back to a chain of distinct
names. -/
theorem Chain.nodup_or_returns (h : Chain lookup source names text) :
    names.Nodup ∨ Returns lookup source := by
  induction h with
  | source => exact .inl .nil
  | @value names text value name hchain hmentions _ ih =>
      rcases ih with hnodup | hreturns
      · by_cases hmem : name ∈ names
        · exact .inr ⟨names, text, name, hchain, hnodup, hmentions, hmem⟩
        · exact .inl (List.nodup_cons.mpr ⟨hmem, hnodup⟩)
      · exact .inr hreturns

/-- **A cycle that can be reached is walked into by a chain of distinct names.** The cycle may be
entered from the side, and the chain need not come back to the name it is given for. -/
theorem returns_of_cycle (hreach : Reachable lookup source name)
    (hcycle : Relation.TransGen (Refers lookup) name name) : Returns lookup source := by
  obtain ⟨names, text, hchain, hmentions⟩ := hreach.exists_chain
  obtain ⟨more, text', hlonger, hback⟩ := hchain.exists_of_transGen hmentions hcycle
  rcases hlonger.nodup_or_returns with hnodup | hreturns
  · have hmem : name ∈ more ++ name :: names := List.mem_append_right _ List.mem_cons_self
    exact ⟨_, text', name, hlonger, hnodup, hback, hmem⟩
  · exact hreturns

end LinkExpr
