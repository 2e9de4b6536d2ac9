import LinkExpr.Proofs.Expansion.Composition
import LinkExpr.Proofs.Scan.Placement
import LinkExpr.Proofs.Scan.Tidy
import Mathlib.Logic.Function.Iterate

/-!
# Levels Are Iterated Expansions

An expansion over several levels walks into the values of a text. Instead, the values may be
inserted as they are and the text that results expanded again, one level after the other. Both give
the same text if the texts are `Tidy`: inserting a value then neither makes nor breaks a marker
where it meets the text around it, and a level of the whole text is a level of each of its parts.

If the expansion met no cycle and did not reach its limit, what is left of the text is `Inert`: none
of its placeholders has a value, and no further expansion changes it.

## Main results

* `substitute_append`, `iterate_substitute_join`: inserting values in texts that are put together.
* `Tidy.substitute`: inserting tidy values in a tidy text gives a tidy text.
* `Inert.text_expandToDepth`: an inert text expands to itself.
* `settles_expandLevel`, `settles_expandLevels`: several levels are as many substitutions, and what
  is left is inert, by induction on the levels.
* `levels_are_iterated_expansions`: the same for the depths of the options.
-/

namespace LinkExpr

/-! ### Texts without values -/

section Inert

variable {lookup : Name → Resolution} {active : List Name}
  {onLink : Placeholder → String → Expansion} {a b source : String} {name : Name} {token : Token}
  {p : Placeholder}

/-- A text mentions the names of its segments. -/
theorem mentions_iff : Mentions source name ↔
    ∃ x ∈ segments source.toList, x.name? = some name := by
  constructor
  · rintro ⟨p, hp, rfl⟩
    obtain ⟨x, hx, hreads, -⟩ := mem_placeholders_iff.mp hp
    obtain ⟨front, back, hss, -⟩ := Span.mem_layout_iff.mp hx
    exact ⟨x, by simp [hss], Segment.name?_eq_some_iff.mpr hreads⟩
  · rintro ⟨x, hx, hname⟩
    rw [← Span.map_fst_layout Segment.raw .start (segments source.toList), List.mem_map] at hx
    obtain ⟨⟨_, span⟩, hmem, rfl⟩ := hx
    exact ⟨⟨name, _, span⟩,
      mem_placeholders_iff.mpr ⟨_, hmem, Segment.name?_eq_some_iff.mp hname, rfl⟩, rfl⟩

/-- A tidy text and what comes after it mention the names of both. -/
theorem Tidy.mentions_append_iff (h : Tidy a) :
    Mentions (a ++ b) name ↔ Mentions a name ∨ Mentions b name := by
  have hnames : ∀ cs, (∃ x ∈ segments cs, x.name? = some name) ↔
      name ∈ (segments cs).flatMap fun x => x.name?.toList := by
    intro cs
    simp only [List.mem_flatMap, Option.mem_toList]
  rw [mentions_iff, mentions_iff, mentions_iff, hnames, hnames, hnames,
    h.flatMap_segments b fun _ _ => rfl, List.mem_append]

/-- No placeholder of a text has a value. -/
def Inert (lookup : Name → Resolution) (source : String) : Prop :=
  ∀ name, Mentions source name → ∀ value, lookup name ≠ .found value

theorem inert_of_placeholders_eq_nil (h : placeholders source = []) : Inert lookup source := by
  rintro name ⟨p, hp, -⟩
  rw [h] at hp
  exact absurd hp List.not_mem_nil

/-- Inert texts that are tidy may be put together. -/
theorem inert_join {texts : List String}
    (h : ∀ text ∈ texts, Tidy text ∧ Inert lookup text) : Inert lookup (String.join texts) := by
  induction texts with
  | nil => exact inert_of_placeholders_eq_nil (placeholders_of_no_open rfl)
  | cons text texts ih =>
      obtain ⟨htidy, hinert⟩ := h text List.mem_cons_self
      have hrest := ih fun other hother => h other (List.mem_cons_of_mem _ hother)
      intro name hname
      rw [String.join_cons, htidy.mentions_append_iff] at hname
      rcases hname with hname | hname
      · exact hinert name hname
      · exact hrest name hname

/-- A token that no value is inserted for. -/
def Token.Stays (lookup : Name → Resolution) (token : Token) : Prop :=
  ∀ p value, token = .placeholder p → lookup p.name ≠ .found value

theorem Token.stays_or_found (lookup : Name → Resolution) (token : Token) :
    token.Stays lookup ∨ ∃ p value, token = .placeholder p ∧ lookup p.name = .found value := by
  by_cases h : ∃ p value, token = .placeholder p ∧ lookup p.name = .found value
  · exact .inr h
  · exact .inl fun p value hp hvalue => h ⟨p, value, hp, hvalue⟩

/-- A token that stays is written down as it is, even if its name is active. -/
theorem Token.Stays.text_expandToken (h : token.Stays lookup) :
    (expandToken lookup active onLink token).text = token.raw := by
  cases token with
  | literal text span => rfl
  | placeholder p =>
      rcases expandToken_cases lookup active onLink p with
        ⟨reason, -, heq⟩ | ⟨-, value, hvalue, -⟩
      · exact congrArg Expansion.text heq
      · exact absurd hvalue (h p value rfl)

/-- A token of a tidy text that stays is an inert text. -/
theorem Token.Stays.inert_raw (h : token.Stays lookup) (hsource : Tidy source)
    (htoken : token ∈ (scan source).tokens) : Inert lookup token.raw := by
  cases token with
  | literal text span =>
      have hbrace : '{' ∉ text.toList := hsource _ htoken rfl
      refine inert_of_placeholders_eq_nil (placeholders_of_no_open ?_)
      exact splitAtPair?_eq_none_iff.mpr fun hpair => hbrace (hpair.subset List.mem_cons_self)
  | placeholder p =>
      rintro name ⟨q, hq, rfl⟩
      have hraw : scan (Token.placeholder p).raw = ⟨[.placeholder p.alone], []⟩ :=
        scan_raw (placeholder_mem_tokens_iff.mp htoken)
      rw [placeholders, hraw] at hq
      obtain rfl := List.mem_singleton.mp hq
      exact fun value => h p value rfl

/-- A text is its tokens, one after the other. -/
theorem join_raw_tokens (source : String) :
    String.join ((scan source).tokens.map Token.raw) = source :=
  (scan_exact source).lossless

/-- **An inert text expands to itself**, to every depth. -/
theorem Inert.text_expandToDepth (h : Inert lookup source) (depth : ℕ) :
    (expandToDepth lookup depth source).text = source := by
  conv_rhs => rw [← join_raw_tokens source]
  rw [expandToDepth_eq, text_expandLevel]
  congr 1
  refine List.map_congr_left fun token htoken => Token.Stays.text_expandToken ?_
  rintro p value rfl
  exact h p.name ⟨p, placeholder_mem_tokens_iff.mp htoken, rfl⟩ value

end Inert

/-! ### Substitution -/

section Substitution

variable {lookup : Name → Resolution} {a b source value : String} {p : Placeholder}
  {texts : List String}

/-- The text with all values inserted as they are. -/
def substitute (lookup : Name → Resolution) (source : String) : String :=
  (expandToDepth lookup 1 source).text

/-- What is inserted for a name, given how its placeholder is written. -/
def inserted (lookup : Name → Resolution) (name : Name) (raw : List Char) : List Char :=
  match lookup name with
  | .found value => value.toList
  | .notFound | .unknownNamespace => raw

/-- One level without further ones inserts a value, whether it is a link or not. -/
theorem text_expandToken_of_found (hvalue : lookup p.name = .found value) :
    (expandToken lookup [] (fun _ value => .ofText value) (.placeholder p)).text = value := by
  simp only [expandToken, List.not_mem_nil, if_false, hvalue, ite_self]
  rfl

/-- The substitution replaces the placeholders of a text by what is inserted for them. -/
theorem toList_substitute : (substitute lookup source).toList =
    replaced (inserted lookup) source := by
  rw [substitute, expandToDepth, if_pos (le_refl 1), text_expandLevel, String.toList_join,
    List.flatMap_map, ← flatMap_replace_tokens]
  refine List.flatMap_congr fun token _ => ?_
  cases token with
  | literal text span => rfl
  | placeholder p =>
      rw [Token.replace, inserted]
      cases hlookup : lookup p.name with
      | found value => rw [text_expandToken_of_found hlookup]
      | notFound | unknownNamespace =>
          simp only [expandToken, List.not_mem_nil, if_false, hlookup]
          rfl

/-- **Values are inserted in one text after the other**, if the first one is tidy. -/
theorem substitute_append (ha : Tidy a) :
    substitute lookup (a ++ b) = substitute lookup a ++ substitute lookup b := by
  rw [← String.toList_inj, String.toList_append, toList_substitute, toList_substitute,
    toList_substitute, ha.replaced_append]

/-- A text whose placeholders have no values stays as it is. -/
theorem Inert.substitute (h : Inert lookup source) : substitute lookup source = source :=
  h.text_expandToDepth 1

theorem substitute_join (h : ∀ text ∈ texts, Tidy text) :
    substitute lookup (String.join texts) = String.join (texts.map (substitute lookup)) := by
  induction texts with
  | nil => exact (inert_of_placeholders_eq_nil (placeholders_of_no_open rfl)).substitute
  | cons text texts ih =>
      rw [String.join_cons, substitute_append (h text List.mem_cons_self),
        ih fun other hother => h other (List.mem_cons_of_mem _ hother), List.map_cons,
        String.join_cons]

/-- A placeholder alone is replaced by its value. -/
theorem substitute_raw (hp : p ∈ placeholders source) (hvalue : lookup p.name = .found value) :
    substitute lookup p.raw = value := by
  rw [substitute, expandToDepth, if_pos (le_refl 1), text_expandLevel, scan_raw hp]
  have halone : lookup p.alone.name = .found value := hvalue
  rw [List.map_singleton, text_expandToken_of_found halone, String.join_cons, String.join_nil,
    String.append_empty]

variable (hvalues : ∀ name value, lookup name = .found value → Tidy value)
include hvalues

/-- **Tidy values in a tidy text give a tidy text.** -/
theorem Tidy.substitute (h : Tidy source) : Tidy (substitute lookup source) := by
  rw [← join_raw_tokens source, substitute_join fun _ htext => h.of_mem_map_raw htext]
  refine Tidy.join fun text htext => ?_
  rw [List.map_map, List.mem_map] at htext
  obtain ⟨token, htoken, rfl⟩ := htext
  rcases token.stays_or_found lookup with hstays | ⟨p, value, rfl, hvalue⟩
  · rw [Function.comp_apply, (hstays.inert_raw h htoken).substitute]
    exact h.raw_of_mem_tokens htoken
  · have hraw : LinkExpr.substitute lookup (Token.placeholder p).raw = value :=
      substitute_raw (placeholder_mem_tokens_iff.mp htoken) hvalue
    rw [Function.comp_apply, hraw]
    exact hvalues p.name value hvalue

theorem Tidy.iterate_substitute (h : Tidy source) (n : ℕ) :
    Tidy ((LinkExpr.substitute lookup)^[n] source) := by
  induction n generalizing source with
  | zero => exact h
  | succ n ih => exact ih (h.substitute hvalues)

/-- Substitutions of a text are substitutions of its parts. -/
theorem iterate_substitute_join (h : ∀ text ∈ texts, Tidy text) (n : ℕ) :
    (substitute lookup)^[n] (String.join texts) =
      String.join (texts.map (substitute lookup)^[n]) := by
  induction n generalizing texts with
  | zero => simp
  | succ n ih =>
      have htexts : ∀ text ∈ texts.map (substitute lookup), Tidy text := by
        intro text htext
        obtain ⟨text', htext', rfl⟩ := List.mem_map.mp htext
        exact (h text' htext').substitute hvalues
      rw [Function.iterate_succ_apply, substitute_join h, ih htexts, List.map_map]
      rfl

end Substitution

/-! ### Levels -/

section Levels

variable {lookup : Name → Resolution} {active : List Name} {levels : ℕ} {source value : String}
  {onLink : Placeholder → String → Expansion} {n : ℕ}

theorem placeholders_eq_nil_of_not_isLink (h : ¬ isLink value = true) :
    placeholders value = [] := by
  refine List.eq_nil_iff_forall_not_mem.mpr fun p hp => h ?_
  exact isLink_iff.mpr ⟨p.name, p, hp, rfl⟩

/-- A text is what a number of substitutions makes of a source, and no value is left to insert. -/
def Settles (lookup : Name → Resolution) (n : ℕ) (source text : String) : Prop :=
  text = (substitute lookup)^[n] source ∧ Inert lookup text

/-- A level without a cycle settles one substitution after its values that are links do. -/
theorem settles_expandToken (hsource : Tidy source)
    (hcycle : (expandLevel lookup active onLink source).Lacks .cycle)
    (hlinks : ∀ p ∈ placeholders source, ∀ value, p.name ∉ active →
      lookup p.name = .found value → isLink value = true →
        Settles lookup n value (onLink p value).text)
    {token : Token} (htoken : token ∈ (scan source).tokens) :
    Settles lookup (n + 1) token.raw (expandToken lookup active onLink token).text := by
  rcases token.stays_or_found lookup with hstays | ⟨p, value, rfl, hvalue⟩
  · have hinert := hstays.inert_raw hsource htoken
    rw [hstays.text_expandToken]
    exact ⟨(Function.iterate_fixed hinert.substitute _).symm, hinert⟩
  · have hp : p ∈ placeholders source := placeholder_mem_tokens_iff.mp htoken
    have hfresh : p.name ∉ active := hcycle.not_mem_active hp
    have hraw : substitute lookup (Token.placeholder p).raw = value := substitute_raw hp hvalue
    rw [Settles, Function.iterate_succ_apply, hraw, expandToken, if_neg hfresh, hvalue]
    by_cases hlink : isLink value = true
    · simp only [hlink, if_true]
      exact hlinks p hp value hfresh hvalue hlink
    · have hinert : Inert lookup value :=
        inert_of_placeholders_eq_nil (placeholders_eq_nil_of_not_isLink hlink)
      simp only [hlink, Bool.false_eq_true, if_false]
      exact ⟨(Function.iterate_fixed hinert.substitute _).symm, hinert⟩

variable (hvalues : ∀ name value, lookup name = .found value → Tidy value)
include hvalues

/-- **A level without a cycle settles if its values do.** What the tokens settle to is put together
again, which takes tidy texts at every substitution. -/
theorem settles_expandLevel (hsource : Tidy source)
    (hcycle : (expandLevel lookup active onLink source).Lacks .cycle)
    (hlinks : ∀ p ∈ placeholders source, ∀ value, p.name ∉ active →
      lookup p.name = .found value → isLink value = true →
        Settles lookup n value (onLink p value).text) :
    Settles lookup (n + 1) source (expandLevel lookup active onLink source).text := by
  have htokens : ∀ token ∈ (scan source).tokens,
      Settles lookup (n + 1) token.raw (expandToken lookup active onLink token).text :=
    fun token htoken => settles_expandToken hsource hcycle hlinks htoken
  rw [text_expandLevel]
  constructor
  · conv_rhs => rw [← join_raw_tokens source]
    rw [iterate_substitute_join hvalues fun _ htext => hsource.of_mem_map_raw htext, List.map_map]
    congr 1
    exact List.map_congr_left fun token htoken => (htokens token htoken).1
  · refine inert_join fun text htext => ?_
    obtain ⟨token, htoken, rfl⟩ := List.mem_map.mp htext
    obtain ⟨htext, hinert⟩ := htokens token htoken
    refine ⟨?_, hinert⟩
    rw [htext]
    exact (hsource.raw_of_mem_tokens htoken).iterate_substitute hvalues _

/-- **Several levels are as many substitutions**, and what they leave has no value, if no cycle is
met and the limit is not reached. -/
theorem settles_expandLevels (hsource : Tidy source)
    (hcycle : (expandLevels lookup levels active source).Lacks .cycle)
    (hlimit : (expandLevels lookup levels active source).Lacks .depthExceeded) :
    Settles lookup (levels + 1) source (expandLevels lookup levels active source).text := by
  induction levels generalizing active source with
  | zero =>
      rw [expandLevels] at hcycle hlimit ⊢
      refine settles_expandLevel hvalues hsource hcycle ?_
      intro p hp value hfresh hvalue hlink
      have hleft := hlimit.link hp hfresh hvalue hlink
      exact absurd rfl (hleft _ (List.mem_singleton.mpr rfl))
  | succ levels ih =>
      rw [expandLevels] at hcycle hlimit ⊢
      refine settles_expandLevel hvalues hsource hcycle ?_
      intro p hp value hfresh hvalue hlink
      exact ih (hvalues p.name value hvalue) (hcycle.link hp hfresh hvalue hlink)
        (hlimit.link hp hfresh hvalue hlink)

/-- An expansion to at least two levels is as many substitutions, and what it leaves has no
value. -/
theorem settles_expandToDepth {limit : ℕ} (hdeep : 2 ≤ limit) (hsource : Tidy source)
    (hcycle : (expandToDepth lookup limit source).Lacks .cycle)
    (hlimit : (expandToDepth lookup limit source).Lacks .depthExceeded) :
    Settles lookup limit source (expandToDepth lookup limit source).text := by
  obtain ⟨levels, rfl⟩ : ∃ levels, limit = levels + 1 := ⟨limit - 1, by omega⟩
  rw [expandToDepth, if_neg (by omega), Nat.add_sub_cancel] at hcycle hlimit ⊢
  exact settles_expandLevels hvalues hsource hcycle hlimit

end Levels

/-- **Levels are iterated expansions.** Where every opening brace of a text and of all values
belongs to a placeholder, an expansion that meets no cycle and does not reach its limit gives the
text that comes of as many expansions to a depth of one. From two levels on nothing is left to
expand in it: it expands to itself, to a depth of one as to the depth that it came from. -/
theorem levels_are_iterated_expansions (c : Context) (source : String)
    (options : ExpansionOptions) (hdepth : 1 ≤ options.maxDepth.toNat) (hsource : Tidy source)
    (hvalues : ∀ name value, c.lookup name = .found value → Tidy value)
    (hcycle : (c.expand source options).Lacks .cycle)
    (hlimit : (c.expand source options).Lacks .depthExceeded) :
    (c.expand source options).text =
      (fun text => (c.expand text default).text)^[options.maxDepth.toNat] source ∧
    (2 ≤ options.maxDepth.toNat →
      (c.expand (c.expand source options).text default).text = (c.expand source options).text ∧
      (c.expand (c.expand source options).text options).text = (c.expand source options).text) := by
  have honce : (fun text => (c.expand text default).text) = substitute c.lookup := rfl
  rw [honce]
  rcases Nat.lt_or_ge 1 options.maxDepth.toNat with hdeep | hshallow
  · have hlevels : 2 ≤ options.depth := Nat.le_min.mpr ⟨hdeep, by decide⟩
    obtain ⟨htext, hinert⟩ := settles_expandToDepth hvalues hlevels hsource hcycle hlimit
    -- substitutions beyond the greatest depth change nothing any more
    obtain ⟨more, hmore⟩ : ∃ more, options.maxDepth.toNat = more + options.depth :=
      ⟨options.maxDepth.toNat - options.depth, by simp only [ExpansionOptions.depth]; omega⟩
    refine ⟨?_, fun _ => ⟨hinert.text_expandToDepth _, hinert.text_expandToDepth _⟩⟩
    rw [hmore, Function.iterate_add_apply, ← htext]
    exact (Function.iterate_fixed hinert.substitute more).symm
  · have hone : options.maxDepth.toNat = 1 := Nat.le_antisymm hshallow hdepth
    have hlevel : options.depth = 1 := by rw [ExpansionOptions.depth, hone]; rfl
    refine ⟨?_, fun hdeep => absurd hdeep (by omega)⟩
    rw [hone, Context.expand, hlevel]
    rfl

/-- A path in a value that mentions another one. -/
def paths : Context where
  registry := .ofPlain ["P"]
  scopes := [(Scope.empty "scope").insertAll
    [("P", "LOG", "\x7b\x7bP:ROOT\x7d\x7d/log"), ("P", "ROOT", "/srv")]]

theorem mem_of_lookup_paths {name : Name} {value : String}
    (h : paths.lookup name = .found value) :
    value ∈ ["\x7b\x7bP:ROOT\x7d\x7d/log", "/srv"] := by
  have hscope : ∀ key, (Scope.empty "scope").get? "P" key = none := fun _ => rfl
  have hregistry : ∀ code, Registry.empty.resolver? code = none := fun _ => rfl
  have hlookup : paths.lookup name = if "P" = name.code then
      if "ROOT" = name.key then .found "/srv"
      else if "LOG" = name.key then .found "\x7b\x7bP:ROOT\x7d\x7d/log" else .notFound
    else .unknownNamespace := by
    simp only [Context.lookup, paths, Registry.ofPlain, Registry.registerPlain, List.foldl_cons,
      List.foldl_nil, Registry.resolver?_register, hregistry, Scope.insertAll]
    by_cases hcode : "P" = name.code
    · simp only [hcode.symm, if_true, List.findSome?_cons, List.findSome?_nil,
        Resolver.scopeLookup, Scope.get?_insert, hscope, true_and]
      by_cases hroot : "ROOT" = name.key
      · rw [if_pos hroot, if_pos hroot]
      · by_cases hlog : "LOG" = name.key
        · rw [if_neg hroot, if_neg hroot, if_pos hlog, if_pos hlog]
        · rw [if_neg hroot, if_neg hroot, if_neg hlog, if_neg hlog]
    · rw [if_neg hcode, if_neg hcode]
  rw [hlookup] at h
  split at h
  · split at h
    · cases h
      simp
    · split at h
      · cases h
        simp
      · cases h
  · cases h

/-- The value of a value is inserted at the second level, and the name without a value stays. -/
theorem paths_are_substituted_twice :
    (paths.expand "\x7b\x7bP:LOG\x7d\x7d, \x7b\x7bP:TMP\x7d\x7d" ⟨3⟩).text =
      "/srv/log, \x7b\x7bP:TMP\x7d\x7d" ∧
    (paths.expand "\x7b\x7bP:LOG\x7d\x7d, \x7b\x7bP:TMP\x7d\x7d" ⟨3⟩).text =
      (fun text => (paths.expand text default).text)^[3]
        "\x7b\x7bP:LOG\x7d\x7d, \x7b\x7bP:TMP\x7d\x7d" ∧
    (paths.expand "/srv/log, \x7b\x7bP:TMP\x7d\x7d" default).text =
      "/srv/log, \x7b\x7bP:TMP\x7d\x7d" := by
  have htidy : ∀ value ∈ ["\x7b\x7bP:ROOT\x7d\x7d/log", "/srv"], Tidy value := by
    decide +kernel
  have htext : (paths.expand "\x7b\x7bP:LOG\x7d\x7d, \x7b\x7bP:TMP\x7d\x7d" ⟨3⟩).text =
      "/srv/log, \x7b\x7bP:TMP\x7d\x7d" := by
    decide +kernel
  obtain ⟨hiterate, hfixed⟩ := levels_are_iterated_expansions paths
    "\x7b\x7bP:LOG\x7d\x7d, \x7b\x7bP:TMP\x7d\x7d" ⟨3⟩ (by decide) (by decide +kernel)
    (fun _ value h => htidy value (mem_of_lookup_paths h)) (by decide +kernel)
    (by decide +kernel)
  exact ⟨htext, hiterate, htext ▸ (hfixed (by decide)).1⟩

end LinkExpr
