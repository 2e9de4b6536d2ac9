import LinkExpr.Template.Substitution
import LinkExpr.Proofs.Expansion.Levels

/-!
# Substitution Is an Expansion

A template is filled as a text is expanded to a depth of one: its variables are the values of a
context in which they can be looked up under every namespace that the substitution is responsible
for. A placeholder without a value is one that is not found, and one that the substitution does not
apply to has a namespace that the context does not know.

The substitution and the expansion go through the tokens of one scan, so it is enough that they
make the same of every token.

## Main results

* `lookup_context`: what the context of a template answers.
* `output_substituteToken`, `status_substituteToken`: a token, substituted and expanded.
* `substitution_is_expansion`: the output and the reports of a substitution.
-/

namespace LinkExpr.Template

/-! ### Basic reductions -/

/-- The output is what the tokens become, one after the other. -/
theorem output_substituteInto (values : Values) (o : Options) (source : String)
    (status : List StatusMessage) :
    (substituteInto values o source status).output =
      String.join ((scan source).tokens.map fun token =>
        (substituteToken values o token).output) := by
  rw [substituteInto, substitute, List.map_map]
  rfl

/-- What was reported before is kept. What is malformed is reported behind it, and then what the
placeholders have to report. -/
theorem status_substituteInto (values : Values) (o : Options) (source : String)
    (status : List StatusMessage) :
    (substituteInto values o source status).status =
      status ++ ((scan source).malformed.map StatusMessage.of ++
        (placeholders source).flatMap fun p =>
          (substituteToken values o (.placeholder p)).status) := by
  rw [substituteInto, substitute, List.flatMap_map, flatMap_tokens fun _ _ => rfl]

/-! ### The context of a template -/

/-- The namespace codes that a substitution is responsible for: the one that it is restricted to,
or else all that the text uses. -/
def Options.codes (o : Options) (source : String) : List String :=
  match o.code with
  | some code => [code]
  | none => (placeholders source).map fun p => p.name.code

/-- The values of variables, the same in every scope. -/
def Values.resolver (values : Values) : Resolver := fun key _ => values.get? key

/-- The registry in which the values of variables serve some namespaces. -/
def Values.registry (values : Values) (codes : List String) : Registry :=
  codes.foldl (fun r code => r.register code values.resolver) .empty

/-- The context of a template; what its only scope holds does not matter. -/
def context (values : Values) (o : Options) (scope : Scope) (source : String) : Context where
  registry := values.registry (o.codes source)
  scopes := [scope]

section Lookup

variable {values : Values} {o : Options} {scope : Scope} {source : String} {p : Placeholder}

theorem resolver?_registry (values : Values) (codes : List String) (code : String) :
    (values.registry codes).resolver? code =
      if code ∈ codes then some values.resolver else none := by
  have hfrom : ∀ r : Registry,
      (codes.foldl (fun r code => r.register code values.resolver) r).resolver? code =
        if code ∈ codes then some values.resolver else r.resolver? code := by
    induction codes with
    | nil => simp
    | cons other rest ih =>
        intro r
        rw [List.foldl_cons, ih, Registry.resolver?_register]
        by_cases hrest : code ∈ rest
        · simp [hrest]
        · simp [hrest, eq_comm]
  exact hfrom .empty

/-- The names of its namespaces are looked up among the values; no other name is known. -/
theorem lookup_context (name : Name) :
    (context values o scope source).lookup name =
      if name.code ∈ o.codes source then
        match values.get? name.key with
        | some value => .found value
        | none => .notFound
      else .unknownNamespace := by
  rw [Context.lookup, context, resolver?_registry]
  by_cases hcode : name.code ∈ o.codes source
  · rw [if_pos hcode, if_pos hcode]
    cases hvalue : values.get? name.key <;> simp [Values.resolver, hvalue]
  · rw [if_neg hcode, if_neg hcode]

/-- A substitution applies to the placeholders whose namespace it is responsible for. -/
theorem mem_codes_iff (h : p ∈ placeholders source) :
    p.name.code ∈ o.codes source ↔ o.appliesTo p = true := by
  rw [Options.codes, Options.appliesTo]
  cases o.code with
  | some code => simp [eq_comm]
  | none => simpa using ⟨p, h, rfl⟩

end Lookup

/-! ### Tokens -/

/-- The reports of the placeholders that are left because they were not found. -/
def missing (unresolved : List Unresolved) : List StatusMessage :=
  (unresolved.filter fun u => u.reason = .notFound).map fun u =>
    .of (⟨u.name.key, u.span⟩ : MissingVariable)

section Tokens

variable {values : Values} {o : Options} {scope : Scope} {source : String} {p : Placeholder}

/-- What a token expands to if values are inserted as they are. -/
def insertToken (lookup : Name → Resolution) : Token → Expansion :=
  expandToken lookup [] fun _ value => .ofText value

/-- A placeholder is replaced by its value, or left for the reason that it has none. -/
theorem insertToken_placeholder (lookup : Name → Resolution) (p : Placeholder) :
    insertToken lookup (.placeholder p) =
      match lookup p.name with
      | .found value => .ofText value
      | .notFound => .ofUnresolved (.ofPlaceholder p none .notFound)
      | .unknownNamespace => .ofUnresolved (.ofPlaceholder p none .unknownNamespace) := by
  rw [insertToken, expandToken, if_neg List.not_mem_nil]
  cases lookup p.name with
  | found value => exact ite_self _
  | notFound | unknownNamespace => rfl

/-- A placeholder of the text, looked up in the context of the template. -/
theorem insertToken_context (h : p ∈ placeholders source) :
    insertToken (context values o scope source).lookup (.placeholder p) =
      if o.appliesTo p then
        match values.get? p.name.key with
        | some value => .ofText value
        | none => .ofUnresolved (.ofPlaceholder p none .notFound)
      else .ofUnresolved (.ofPlaceholder p none .unknownNamespace) := by
  rw [insertToken_placeholder, lookup_context]
  by_cases happlies : o.appliesTo p = true
  · rw [if_pos ((mem_codes_iff h).mpr happlies), if_pos happlies]
    cases values.get? p.name.key <;> rfl
  · rw [if_neg fun hcode => happlies ((mem_codes_iff h).mp hcode), if_neg happlies]

/-- A token becomes the text that it expands to. -/
theorem output_substituteToken {token : Token} (h : token ∈ (scan source).tokens) :
    (substituteToken values o token).output =
      (insertToken (context values o scope source).lookup token).text := by
  cases token with
  | literal text span => rfl
  | placeholder p =>
      rw [insertToken_context (placeholder_mem_tokens_iff.mp h), substituteToken]
      by_cases happlies : o.appliesTo p = true
      · rw [if_pos happlies, if_pos happlies]
        cases values.get? p.name.key <;> rfl
      · rw [if_neg happlies, if_neg happlies]
        rfl

/-- A placeholder is reported as missing where its expansion leaves it because it was not found. -/
theorem status_substituteToken (h : p ∈ placeholders source) :
    (substituteToken values o (.placeholder p)).status =
      missing (insertToken (context values o scope source).lookup (.placeholder p)).unresolved := by
  rw [insertToken_context h, substituteToken]
  by_cases happlies : o.appliesTo p = true
  · rw [if_pos happlies, if_pos happlies]
    cases values.get? p.name.key <;> rfl
  · rw [if_neg happlies, if_neg happlies]
    rfl

/-- A placeholder that is inserted or left has nothing malformed in it. -/
theorem errors_insertToken (lookup : Name → Resolution) (p : Placeholder) :
    (insertToken lookup (.placeholder p)).errors = [] := by
  rw [insertToken_placeholder]
  cases lookup p.name <;> rfl

/-- The namespace of a placeholder is unknown if the substitution does not apply to it. -/
theorem filter_unknown_insertToken (h : p ∈ placeholders source) :
    (insertToken (context values o scope source).lookup (.placeholder p)).unresolved.filter
        (·.reason = .unknownNamespace) =
      if o.appliesTo p then [] else [.ofPlaceholder p none .unknownNamespace] := by
  rw [insertToken_context h]
  by_cases happlies : o.appliesTo p = true
  · rw [if_pos happlies, if_pos happlies]
    cases values.get? p.name.key <;> rfl
  · rw [if_neg happlies, if_neg happlies]
    rfl

/-- The placeholders that a substitution does not apply to, one after the other. -/
theorem map_filter_not_appliesTo {β : Type} (o : Options) (f : Placeholder → β)
    (ps : List Placeholder) :
    (ps.filter fun p => !o.appliesTo p).map f =
      ps.flatMap fun p => if o.appliesTo p then [] else [f p] := by
  induction ps with
  | nil => rfl
  | cons p ps ih =>
      rw [List.flatMap_cons, ← ih]
      cases happlies : o.appliesTo p <;> simp [happlies]

end Tokens

/-- **Substitution is an expansion to a depth of one**, in the context of the template. The output
is the text of the expansion. To the reports that there were, the substitution adds the errors of
the expansion, which are what is malformed in the text, and then one report for every placeholder
that was not found, in their order and with repetitions. The placeholders that the substitution
does not apply to are those whose namespace is unknown, and nothing is reported for them. -/
theorem substitution_is_expansion (values : Values) (o : Options) (scope : Scope)
    (source : String) (status : List StatusMessage) :
    (substituteInto values o source status).output =
      ((context values o scope source).expand source default).text ∧
    (substituteInto values o source status).status =
      status ++ ((context values o scope source).expand source default).errors ++
        (((context values o scope source).expand source default).unresolved.filter
          (·.reason = .notFound)).map (fun u =>
            StatusMessage.of (⟨u.name.key, u.span⟩ : MissingVariable)) ∧
    ((context values o scope source).expand source default).errors =
      (scan source).malformed.map StatusMessage.of ∧
    ((context values o scope source).expand source default).unresolved.filter
        (·.reason = .unknownNamespace) =
      ((placeholders source).filter fun p => !o.appliesTo p).map
        (.ofPlaceholder · none .unknownNamespace) := by
  have hexpand : (context values o scope source).expand source default =
      expandLevel (context values o scope source).lookup [] (fun _ value => .ofText value)
        source := rfl
  have herrors : ((context values o scope source).expand source default).errors =
      (scan source).malformed.map StatusMessage.of := by
    have hnone : (placeholders source).flatMap (fun p =>
        (insertToken (context values o scope source).lookup (.placeholder p)).errors) = [] :=
      List.flatMap_eq_nil_iff.mpr fun p _ => errors_insertToken _ p
    rw [hexpand, errors_expandLevel]
    exact (congrArg _ hnone).trans (List.append_nil _)
  refine ⟨?_, ?_, herrors, ?_⟩
  · rw [hexpand, text_expandLevel, output_substituteInto]
    congr 1
    exact List.map_congr_left fun token htoken => output_substituteToken htoken
  · have hmissing : (placeholders source).flatMap (fun p =>
        (substituteToken values o (.placeholder p)).status) =
          missing ((context values o scope source).expand source default).unresolved := by
      rw [hexpand, unresolved_expandLevel, missing, List.filter_flatMap, List.map_flatMap]
      exact List.flatMap_congr fun p hp => status_substituteToken hp
    rw [status_substituteInto, hmissing, herrors, List.append_assoc]
    rfl
  · rw [hexpand, unresolved_expandLevel, List.filter_flatMap, map_filter_not_appliesTo]
    exact List.flatMap_congr fun p hp => filter_unknown_insertToken hp

end LinkExpr.Template
