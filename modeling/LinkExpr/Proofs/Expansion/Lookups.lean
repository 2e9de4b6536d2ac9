import LinkExpr.Proofs.Expansion.Levels

/-!
# The Lookups of an Expansion

An expansion asks its context for names and for nothing else, and it only asks for the names that
it `Needs`: those that stand at the end of a chain of distinct names within the limit and are not
on the chain. Two contexts that answer alike wherever the expansion asks have one outcome.

What was asked shows in the reports. A needed name that is not found is reported as such, so an
expansion without that reason needs no name that a further scope could define, and one without an
unknown namespace needs none that a further registration could make known.

## Main results

* `expandLevels_congr`, `expandToDepth_congr`: two lookups that agree on all names that are needed,
  by induction on the levels.
* `Needs.not_lacks`: a needed name for which there is a reason is reported.
* `only_needed_lookups_matter`: closed sets of names, further scopes and further namespaces.
-/

namespace LinkExpr

section Lookups

variable {lookup lookup' : Name → Resolution} {active : List Name} {levels limit : ℕ}
  {source value : String} {name a : Name}

/-- An expansion that has active names and a number of further levels asks for the value of a
name: the name stands at the end of a chain of distinct names that are not active, and it is
neither one of them nor active. -/
def Needs (lookup : Name → Resolution) (levels : ℕ) (active : List Name) (source : String)
    (name : Name) : Prop :=
  ∃ names text, Chain lookup source names text ∧ (names ++ active).Nodup ∧
    names.length ≤ levels ∧ Mentions text name ∧ name ∉ names ++ active

/-- The names of the text itself are needed. -/
theorem needs_of_mentions (hactive : active.Nodup) (h : Mentions source name)
    (hfresh : name ∉ active) : Needs lookup levels active source name :=
  ⟨[], source, .source, hactive, Nat.zero_le _, h, hfresh⟩

/-- What is needed for the value of a name is needed for the text that mentions the name. -/
theorem needs_of_value (ha : Mentions source a) (hvalue : lookup a = .found value)
    (h : Needs lookup levels (a :: active) value name) :
    Needs lookup (levels + 1) active source name := by
  obtain ⟨names, text, hchain, hdistinct, hlength, hmentions, hname⟩ := h
  rw [List.append_cons] at hdistinct hname
  refine ⟨names ++ [a], text, chain_concat_iff.mpr ⟨ha, value, hvalue, hchain⟩, hdistinct, ?_,
    hmentions, hname⟩
  rw [List.length_append, List.length_singleton]
  exact Nat.succ_le_succ hlength

/-- What is needed can be reached. -/
theorem Needs.reachable (h : Needs lookup levels active source name) :
    Reachable lookup source name := by
  obtain ⟨names, text, hchain, -, -, hmentions, -⟩ := h
  exact hchain.reachable_of_mentions hmentions

/-- **Lookups that agree on all names that several levels need have one outcome.** -/
theorem expandLevels_congr (hactive : active.Nodup)
    (h : ∀ name, Needs lookup levels active source name → lookup name = lookup' name) :
    expandLevels lookup levels active source = expandLevels lookup' levels active source := by
  induction levels generalizing active source with
  | zero =>
      rw [expandLevels, expandLevels]
      refine expandLevel_congr fun p hp => expandToken_congr ?_ fun _ _ _ _ => rfl
      exact fun hfresh => h p.name (needs_of_mentions hactive ⟨p, hp, rfl⟩ hfresh)
  | succ levels ih =>
      rw [expandLevels, expandLevels]
      refine expandLevel_congr fun p hp => expandToken_congr ?_ ?_
      · exact fun hfresh => h p.name (needs_of_mentions hactive ⟨p, hp, rfl⟩ hfresh)
      · intro value hfresh hvalue _
        refine ih (List.nodup_cons.mpr ⟨hfresh, hactive⟩) fun name hname => h name ?_
        exact needs_of_value ⟨p, hp, rfl⟩ hvalue hname

/-- **Lookups that agree on all names that are needed have one outcome.** -/
theorem expandToDepth_congr
    (h : ∀ name, Needs lookup (limit - 1) [] source name → lookup name = lookup' name) :
    expandToDepth lookup limit source = expandToDepth lookup' limit source := by
  rw [expandToDepth, expandToDepth]
  by_cases hshallow : limit ≤ 1
  · rw [if_pos hshallow, if_pos hshallow]
    refine expandLevel_congr fun p hp => expandToken_congr ?_ fun _ _ _ _ => rfl
    exact fun hfresh => h p.name (needs_of_mentions .nil ⟨p, hp, rfl⟩ hfresh)
  · rw [if_neg hshallow, if_neg hshallow]
    exact expandLevels_congr .nil h

/-- A needed name for which there is a reason is reported. -/
theorem Needs.not_lacks (h : Needs lookup (limit - 1) [] source name) {reason : Reason}
    (hreason : ∀ names atLimit, name ∉ names → RightReason lookup names atLimit name reason) :
    ¬ (expandToDepth lookup limit source).Lacks reason := by
  obtain ⟨names, text, hchain, hdistinct, hlength, ⟨p, hp, rfl⟩, hname⟩ := h
  rw [List.append_nil] at hdistinct hname
  intro hlacks
  refine hlacks (.ofPlaceholder p names.head? reason) (mem_unresolved_iff.mpr
    ⟨names, text, hchain, hdistinct, hlength, ⟨p, hp, rfl⟩, ?_⟩) rfl
  exact hreason names _ hname

/-- An expansion that leaves nothing as not found needs no such name. -/
theorem Needs.lookup_ne_notFound (h : Needs lookup (limit - 1) [] source name)
    (hlacks : (expandToDepth lookup limit source).Lacks .notFound) : lookup name ≠ .notFound :=
  fun hlookup => h.not_lacks (fun _ _ hname => (rightReason_of_notFound hname hlookup).mpr rfl)
    hlacks

/-- An expansion that leaves nothing for its namespace needs no name of an unknown one. -/
theorem Needs.lookup_ne_unknownNamespace (h : Needs lookup (limit - 1) [] source name)
    (hlacks : (expandToDepth lookup limit source).Lacks .unknownNamespace) :
    lookup name ≠ .unknownNamespace :=
  fun hlookup => h.not_lacks
    (fun _ _ hname => (rightReason_of_unknownNamespace hname hlookup).mpr rfl) hlacks

/-- A set of names that has the names of a text and, with a name, those of its value has all names
that can be reached. -/
theorem Reachable.mem_of_closed {s : Set Name} (h : Reachable lookup source name)
    (hsource : ∀ a, Mentions source a → a ∈ s)
    (hclosed : ∀ a ∈ s, ∀ value, lookup a = .found value → ∀ b, Mentions value b → b ∈ s) :
    name ∈ s := by
  induction h with
  | mention hname => exact hsource _ hname
  | @refer a b _ hrefers ih =>
      obtain ⟨value, hvalue, hb⟩ := hrefers
      exact hclosed a ih value hvalue b hb

end Lookups

/-! ### Further namespaces -/

/-- The namespace that a change registers. -/
def Change.registered? : Change → Option String
  | .registerPlain code | .register code _ => some code
  | .pushScope _ | .insert .. => none

/-- A change registers a namespace that a context does not know. -/
def Change.IsNew (c : Context) (change : Change) : Prop :=
  ∃ code, change.registered? = some code ∧ c.registry.contains code = false

/-- A registration matters for no other namespace. -/
theorem Context.lookup_apply (c : Context) {change : Change} {code : String} {name : Name}
    (h : change.registered? = some code) (hname : code ≠ name.code) :
    (change.apply c).lookup name = c.lookup name := by
  cases change with
  | registerPlain _ | register _ _ =>
      obtain rfl := Option.some.inj h
      simp [Change.apply, Context.register, Context.lookup, hname]
  | pushScope _ | insert _ _ _ _ => cases h

/-- Registrations matter for no other namespaces. -/
theorem Context.lookup_run (c : Context) {changes : List Change} {name : Name}
    (h : ∀ change ∈ changes, ∃ code, change.registered? = some code ∧ code ≠ name.code) :
    (Change.run c changes).lookup name = c.lookup name := by
  induction changes generalizing c with
  | nil => rfl
  | cons change rest ih =>
      obtain ⟨code, hcode, hname⟩ := h change List.mem_cons_self
      have hrest := ih (change.apply c) fun other hother => h other (List.mem_cons_of_mem _ hother)
      exact hrest.trans (c.lookup_apply hcode hname)

/-- Namespaces that are registered further only matter for names of unknown ones. -/
theorem Context.lookup_run_of_isNew (c : Context) {changes : List Change} {name : Name}
    (hnew : ∀ change ∈ changes, change.IsNew c) (hknown : c.lookup name ≠ .unknownNamespace) :
    (Change.run c changes).lookup name = c.lookup name := by
  refine c.lookup_run fun change hchange => ?_
  obtain ⟨code, hcode, hfree⟩ := hnew change hchange
  refine ⟨code, hcode, ?_⟩
  rintro rfl
  apply hknown
  have hnone : c.registry.resolver? name.code = none :=
    Option.isNone_iff_eq_none.mp (Option.isSome_eq_false_iff.mp hfree)
  rw [Context.lookup, hnone]

/-- **Only the lookups that are needed matter.** Contexts that answer alike for every name of a set
that has the names of the text and, with a name, the names of its value expand the text alike. A
further scope changes nothing if no placeholder was left as not found, and further namespaces, as
many as there may be, change nothing if none was left for its namespace. -/
theorem only_needed_lookups_matter (c : Context) (source : String) (options : ExpansionOptions) :
    (∀ (c' : Context) (s : Set Name), (∀ a, Mentions source a → a ∈ s) →
      (∀ a ∈ s, ∀ value, c.lookup a = .found value → ∀ b, Mentions value b → b ∈ s) →
      (∀ a ∈ s, c.lookup a = c'.lookup a) →
        c.expand source options = c'.expand source options) ∧
    ((c.expand source options).Lacks .notFound → ∀ scope,
      (c.pushScope scope).expand source options = c.expand source options) ∧
    ((c.expand source options).Lacks .unknownNamespace → ∀ changes : List Change,
      (∀ change ∈ changes, change.IsNew c) →
        (Change.run c changes).expand source options = c.expand source options) := by
  refine ⟨?_, ?_, ?_⟩
  · intro c' s hsource hclosed hagree
    refine expandToDepth_congr fun name hname => hagree name ?_
    exact hname.reachable.mem_of_closed hsource hclosed
  · intro hlacks scope
    refine (expandToDepth_congr fun name hname => ?_).symm
    exact (c.lookup_pushScope scope (hname.lookup_ne_notFound hlacks)).symm
  · intro hlacks changes hnew
    refine (expandToDepth_congr fun name hname => ?_).symm
    exact (c.lookup_run_of_isNew hnew (hname.lookup_ne_unknownNamespace hlacks)).symm

/-- A text in a value, and a value that is not a link. -/
def greeting : Context where
  registry := .ofPlain ["A"]
  scopes := [(Scope.empty "scope").insertAll
    [("A", "X", "dear \x7b\x7bA:Y\x7d\x7d"), ("A", "Y", "all")]]

/-- A value that is not mentioned, a scope of the lowest precedence and two further namespaces go
unnoticed. -/
theorem unneeded_values_go_unnoticed :
    greeting.expand "\x7b\x7bA:X\x7d\x7d" ⟨3⟩ =
      ((Change.insert 0 "A" "Z" "unused").apply greeting).expand "\x7b\x7bA:X\x7d\x7d" ⟨3⟩ ∧
    (greeting.pushScope ((Scope.empty "late").insert "A" "X" "late")).expand
      "\x7b\x7bA:X\x7d\x7d" ⟨3⟩ = greeting.expand "\x7b\x7bA:X\x7d\x7d" ⟨3⟩ ∧
    (Change.run greeting [.registerPlain "B", .register "C" fun key _ => some key]).expand
      "\x7b\x7bA:X\x7d\x7d" ⟨3⟩ = greeting.expand "\x7b\x7bA:X\x7d\x7d" ⟨3⟩ := by
  have h := only_needed_lookups_matter greeting "\x7b\x7bA:X\x7d\x7d" ⟨3⟩
  refine ⟨h.1 _ {name | name ∈ [⟨"A", "X"⟩, ⟨"A", "Y"⟩]} ?_ ?_ ?_, h.2.1 ?_ _, h.2.2 ?_ _ ?_⟩
  · rintro _ ⟨p, hp, rfl⟩
    have hnames : ∀ p ∈ placeholders "\x7b\x7bA:X\x7d\x7d",
        p.name ∈ [(⟨"A", "X"⟩ : Name), ⟨"A", "Y"⟩] := by
      decide +kernel
    exact hnames p hp
  · rintro a ha value hvalue _ ⟨p, hp, rfl⟩
    have hnames : ∀ a ∈ [(⟨"A", "X"⟩ : Name), ⟨"A", "Y"⟩], ∀ value ∈ (greeting.lookup a).value?,
        ∀ p ∈ placeholders value, p.name ∈ [(⟨"A", "X"⟩ : Name), ⟨"A", "Y"⟩] := by
      decide +kernel
    exact hnames a ha value (by rw [hvalue]; rfl) p hp
  · have hagree : ∀ a ∈ [(⟨"A", "X"⟩ : Name), ⟨"A", "Y"⟩], greeting.lookup a =
        ((Change.insert 0 "A" "Z" "unused").apply greeting).lookup a := by
      decide +kernel
    exact hagree
  · decide +kernel
  · decide +kernel
  · intro change hchange
    rcases List.mem_pair.mp hchange with rfl | rfl
    · exact ⟨"B", rfl, by decide +kernel⟩
    · exact ⟨"C", rfl, by decide +kernel⟩

end LinkExpr
