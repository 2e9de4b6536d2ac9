import LinkExpr.Proofs.Excerpt.Marks
import LinkExpr.Proofs.Expansion.Iteration
import LinkExpr.Proofs.Scan.Names

/-!
# Left in Place

What an expansion leaves is kept as it is written, and the report on it says where it was read. The
reports of all levels come in one list, while their spans lie in different texts: in the source, or
in the value of the name that the report gives as its origin. The chain that justifies a report
leads to that text, so the text need not be searched for.

The list follows the text of the expansion. The parts left occur in it one behind the other, at
every level, since a token writes down what it leaves and nothing else of it.

## Main results

* `Justified.standsIn`, `Justified.marks`: the text that a report is about, and the place there.
* `pairwise_unresolved`: what is left of the source itself comes in the order of the source.
* `keeps_expandLevels`, `keeps_expandToDepth`: what is left occurs in the text in the order of the
  list, by induction on the levels.
* `Inert.forall₂_unresolved`: a text without values is left placeholder by placeholder.
* `what_is_left_stays_in_place`: the same for expansions in a context.
-/

namespace LinkExpr

/-! ### Parts of a text -/

/-- Parts occur in a text, each behind the one before it, with any text between them. -/
inductive OccurIn : List String → String → Prop
  | nil (text : String) : OccurIn [] text
  | cons {part : String} {parts : List String} {rest : String} (gap : String) :
      OccurIn parts rest → OccurIn (part :: parts) (gap ++ part ++ rest)

namespace OccurIn

variable {parts parts' : List String} {text text' : String}

/-- Text in front does not matter. -/
theorem prepend (h : OccurIn parts text) (front : String) : OccurIn parts (front ++ text) := by
  cases h with
  | nil => exact .nil _
  | cons gap hrest =>
      rw [← String.append_assoc, ← String.append_assoc]
      exact .cons (front ++ gap) hrest

/-- The parts of two texts occur in both of them together. -/
theorem append (h : OccurIn parts text) (h' : OccurIn parts' text') :
    OccurIn (parts ++ parts') (text ++ text') := by
  induction h with
  | nil text => exact h'.prepend text
  | cons gap _ ih =>
      rw [List.cons_append, String.append_assoc]
      exact .cons gap ih

/-- A text occurs in itself. -/
theorem singleton (part : String) : OccurIn [part] part := by
  have h : OccurIn [part] ("" ++ part ++ "") := .cons "" (.nil "")
  rwa [String.empty_append, String.append_empty] at h

end OccurIn

/-! ### What is left occurs in the text -/

/-- What an expansion leaves occurs in its text as it was written, in the order of the list. -/
def Expansion.Keeps (e : Expansion) : Prop := OccurIn (e.unresolved.map (·.raw)) e.text

namespace Expansion

theorem keeps_ofText (text : String) : (ofText text).Keeps := .nil text

theorem keeps_ofUnresolved (u : Unresolved) : (ofUnresolved u).Keeps := .singleton u.raw

theorem Keeps.append {a b : Expansion} (ha : a.Keeps) (hb : b.Keeps) : (a ++ b).Keeps := by
  rw [Keeps, unresolved_append, List.map_append, text_append]
  exact OccurIn.append ha hb

theorem Keeps.concat {es : List Expansion} (h : ∀ e ∈ es, e.Keeps) : (concat es).Keeps := by
  induction es with
  | nil => exact .nil _
  | cons e es ih =>
      rw [concat_cons]
      exact (h e List.mem_cons_self).append (ih fun other hother =>
        h other (List.mem_cons_of_mem _ hother))

end Expansion

section Keeps

variable {lookup : Name → Resolution} {onLink : Placeholder → String → Expansion}

/-- A token keeps what it leaves if its value does. -/
theorem keeps_expandToken (hlinks : ∀ p value, (onLink p value).Keeps) (active : List Name)
    (token : Token) : (expandToken lookup active onLink token).Keeps := by
  cases token with
  | literal text span => exact .nil text
  | placeholder p =>
      rcases expandToken_cases lookup active onLink p with
        ⟨reason, -, heq⟩ | ⟨-, value, -, heq⟩
      · exact heq ▸ Expansion.keeps_ofUnresolved _
      · rw [heq]
        split
        · exact hlinks p value
        · exact Expansion.keeps_ofText value

/-- A level keeps what it leaves if its values do. -/
theorem keeps_expandLevel (hlinks : ∀ p value, (onLink p value).Keeps) (active : List Name)
    (source : String) : (expandLevel lookup active onLink source).Keeps := by
  rw [expandLevel]
  refine Expansion.Keeps.append (.nil "") (Expansion.Keeps.concat fun e he => ?_)
  obtain ⟨token, -, rfl⟩ := List.mem_map.mp he
  exact keeps_expandToken hlinks active token

/-- **Several levels keep what they leave.** -/
theorem keeps_expandLevels (levels : ℕ) (active : List Name) (source : String) :
    (expandLevels lookup levels active source).Keeps := by
  induction levels generalizing active source with
  | zero => exact keeps_expandLevel (fun _ _ => Expansion.keeps_ofUnresolved _) active source
  | succ levels ih => exact keeps_expandLevel (fun p value => ih _ value) active source

/-- **An expansion keeps what it leaves**, to every depth. -/
theorem keeps_expandToDepth (limit : ℕ) (source : String) :
    (expandToDepth lookup limit source).Keeps := by
  rw [expandToDepth]
  split
  · exact keeps_expandLevel (fun _ value => Expansion.keeps_ofText value) [] source
  · exact keeps_expandLevels (limit - 1) [] source

end Keeps

/-! ### Where it was read -/

section Places

variable {lookup : Name → Resolution} {limit : ℕ} {source text : String} {names : List Name}
  {u : Unresolved} {p : Placeholder}

/-- The text that a report is about: the value of its origin, or the source if it has none. -/
def Unresolved.StandsIn (lookup : Name → Resolution) (source : String) (u : Unresolved)
    (text : String) : Prop :=
  match u.via with
  | none => text = source
  | some name => lookup name = .found text

/-- The chain that justifies a report leads to the text that the report is about. -/
theorem Justified.standsIn (h : Justified lookup limit source names text u) :
    u.StandsIn lookup source text := by
  obtain ⟨p, -, hu⟩ := h.placed
  have hvia : u.via = names.head? := congrArg Unresolved.via hu
  rw [Unresolved.StandsIn, hvia]
  cases h.chain with
  | source => rfl
  | value _ _ hlookup => exact hlookup

/-- **A report marks the placeholder it is about**, and gives the name that is written there. -/
theorem Justified.marks (h : Justified lookup limit source names text u) :
    u.span.Marks text u.raw ∧ toString u.name = u.raw := by
  obtain ⟨p, hp, hu⟩ := h.placed
  rw [hu]
  exact ⟨(scan_exact text).tokens_marked _ (placeholder_mem_tokens_iff.mpr hp),
    toString_name_of_mem_placeholders hp⟩

/-- What is left of the source has an excerpt there that says the same as its span. -/
theorem excerpt?_of_via_eq_none (h : u ∈ (expandToDepth lookup limit source).unresolved)
    (hvia : u.via = none) :
    Reportable.excerpt? u source = some (.ofSpan source u.span) ∧
      u.span.Agrees source u.raw (.ofSpan source u.span) := by
  obtain ⟨p, hp, hspan, hraw⟩ := exists_placeholder_of_via_eq_none h hvia
  obtain ⟨cut, hcut⟩ := exists_lineAround_of_mem_tokens (placeholder_mem_tokens_iff.mpr hp)
  constructor
  · simp [Reportable.excerpt?, hvia]
  · rw [hspan, hraw]
    exact Span.LineAround.agrees hcut

/-- What is left of a value has no excerpt, whatever text it is shown with. -/
theorem excerpt?_of_via_eq_some {name : Name} (hvia : u.via = some name) (text : String) :
    Reportable.excerpt? u text = none := by
  simp [Reportable.excerpt?, hvia]

/-- A placeholder leaves itself, or only what stands in its value. -/
theorem unresolved_expandToken (p : Placeholder) :
    (∃ reason, RightReason lookup [] False p.name reason ∧
      (expandToken lookup [] (expandLink lookup limit) (.placeholder p)).unresolved =
        [.ofPlaceholder p none reason]) ∨
    (∃ value, lookup p.name = .found value) ∧
      ∀ u ∈ (expandToken lookup [] (expandLink lookup limit) (.placeholder p)).unresolved,
        u.via ≠ none := by
  rcases expandToken_cases lookup [] (expandLink lookup limit) p with
    ⟨reason, hreason, heq⟩ | ⟨-, value, hlookup, heq⟩
  · exact .inl ⟨reason, hreason, congrArg Expansion.unresolved heq⟩
  · refine .inr ⟨⟨value, hlookup⟩, fun u hu => ?_⟩
    rw [heq] at hu
    split at hu
    · exact via_ne_none_of_mem_expandLink hu
    · exact absurd hu List.not_mem_nil

/-- What a placeholder leaves of the source is the placeholder itself. -/
theorem span_eq_of_via_eq_none
    (h : u ∈ (expandToken lookup [] (expandLink lookup limit) (.placeholder p)).unresolved)
    (hvia : u.via = none) : u.span = p.span := by
  rcases unresolved_expandToken p with ⟨reason, -, hleft⟩ | ⟨-, hvalue⟩
  · rw [hleft] at h
    obtain rfl := List.mem_singleton.mp h
    rfl
  · exact absurd hvia (hvalue u h)

/-- **What is left of the source comes in the order of the source.** Reports on values may come
between. -/
theorem pairwise_unresolved (lookup : Name → Resolution) (limit : ℕ) (source : String) :
    (expandToDepth lookup limit source).unresolved.Pairwise fun u v => u.via = none →
      v.via = none → u.span.start.offset < v.span.start.offset ∧
        u.span.stop.offset ≤ v.span.start.offset := by
  rw [expandToDepth_eq, unresolved_expandLevel, List.pairwise_flatMap]
  constructor
  · intro p hp
    rcases unresolved_expandToken p with ⟨reason, -, hleft⟩ | ⟨-, hvalue⟩
    · rw [hleft]
      exact List.pairwise_singleton _ _
    · exact List.pairwise_of_forall_mem_list fun u hu _ _ hvia => absurd hvia (hvalue u hu)
  · refine (pairwise_placeholders source).imp fun {p q} hpq u hu v hv huvia hvvia => ?_
    rw [span_eq_of_via_eq_none hu huvia, span_eq_of_via_eq_none hv hvvia]
    exact hpq

end Places

/-! ### Texts without values -/

/-- A list that gives one related item for each item of another one. -/
theorem forall₂_flatMap {α β : Type} {R : α → β → Prop} {f : α → List β} {xs : List α}
    (h : ∀ x ∈ xs, ∃ y, f x = [y] ∧ R x y) : List.Forall₂ R xs (xs.flatMap f) := by
  induction xs with
  | nil => exact .nil
  | cons x xs ih =>
      obtain ⟨y, hy, hxy⟩ := h x List.mem_cons_self
      rw [List.flatMap_cons, hy]
      exact .cons hxy (ih fun other hother => h other (List.mem_cons_of_mem _ hother))

/-- **Without a value, every placeholder of a text is left**, in its order and for the right
reason. -/
theorem Inert.forall₂_unresolved {lookup : Name → Resolution} {source : String}
    (h : Inert lookup source) (limit : ℕ) :
    List.Forall₂ (fun p u => ∃ reason, RightReason lookup [] False p.name reason ∧
        u = .ofPlaceholder p none reason)
      (placeholders source) (expandToDepth lookup limit source).unresolved := by
  rw [expandToDepth_eq, unresolved_expandLevel]
  refine forall₂_flatMap fun p hp => ?_
  rcases unresolved_expandToken p with ⟨reason, hreason, hleft⟩ | ⟨⟨value, hvalue⟩, -⟩
  · exact ⟨_, hleft, reason, hreason, rfl⟩
  · exact absurd hvalue (h p.name ⟨p, hp, rfl⟩ value)

/-- **What is left stays in place.** Every report gives the name that is written in its text. A
report without an origin marks the placeholder in the source, where its excerpt is; these reports
come in the order of the source. A report with an origin marks the placeholder in the value of that
name, and has no excerpt. All placeholders left occur in the text of the expansion, in the order of
the list. If no placeholder of the source has a value, the text is the source, and each of its
placeholders is left, in its order and without an origin. -/
theorem what_is_left_stays_in_place (c : Context) (source : String) (options : ExpansionOptions) :
    (∀ u ∈ (c.expand source options).unresolved, toString u.name = u.raw ∧
      (u.via = none → u.span.slice? source = some u.raw ∧
        Reportable.excerpt? u source = some (.ofSpan source u.span) ∧
        u.span.Agrees source u.raw (.ofSpan source u.span)) ∧
      ∀ name, u.via = some name →
        (∃ value, c.lookup name = .found value ∧ u.span.slice? value = some u.raw) ∧
        ∀ text, Reportable.excerpt? u text = none) ∧
    (c.expand source options).unresolved.Pairwise (fun u v => u.via = none → v.via = none →
      u.span.start.offset < v.span.start.offset ∧ u.span.stop.offset ≤ v.span.start.offset) ∧
    OccurIn ((c.expand source options).unresolved.map (·.raw)) (c.expand source options).text ∧
    (Inert c.lookup source → (c.expand source options).text = source ∧
      List.Forall₂ (fun p u => ∃ reason, RightReason c.lookup [] False p.name reason ∧
          u = .ofPlaceholder p none reason)
        (placeholders source) (c.expand source options).unresolved) := by
  refine ⟨fun u hu => ?_, pairwise_unresolved _ _ source, keeps_expandToDepth _ source,
    fun h => ⟨h.text_expandToDepth _, h.forall₂_unresolved _⟩⟩
  obtain ⟨names, text, h⟩ := mem_unresolved_iff.mp hu
  obtain ⟨hmarks, hname⟩ := h.marks
  have hstands := h.standsIn
  refine ⟨hname, fun hvia => ?_, fun name hvia => ?_⟩
  · simp only [Unresolved.StandsIn, hvia] at hstands
    exact ⟨hstands ▸ hmarks.slice, excerpt?_of_via_eq_none hu hvia⟩
  · simp only [Unresolved.StandsIn, hvia] at hstands
    exact ⟨⟨text, hstands, hmarks.slice⟩, excerpt?_of_via_eq_some hvia⟩

/-- A value that mentions itself behind a name without a value. -/
def unfinished : Context where
  registry := .ofPlain ["A"]
  scopes := [(Scope.empty "scope").insert "A" "X" "<\x7b\x7bA:M\x7d\x7d>, \x7b\x7bA:X\x7d\x7d"]

/-- Two placeholders are left of a value, between two of the source. A text with the latter alone
stays as it is. -/
theorem value_is_left_between_names :
    let source := "\x7b\x7bB:k\x7d\x7d \x7b\x7bA:X\x7d\x7d \x7b\x7bA:N\x7d\x7d"
    (unfinished.expand source ⟨3⟩).unresolved.map (fun u => (u.raw, u.via)) =
      [("\x7b\x7bB:k\x7d\x7d", none), ("\x7b\x7bA:M\x7d\x7d", some ⟨"A", "X"⟩),
        ("\x7b\x7bA:X\x7d\x7d", some ⟨"A", "X"⟩), ("\x7b\x7bA:N\x7d\x7d", none)] ∧
    (∀ u ∈ (unfinished.expand source ⟨3⟩).unresolved, u.via = some ⟨"A", "X"⟩ →
      u.span.slice? "<\x7b\x7bA:M\x7d\x7d>, \x7b\x7bA:X\x7d\x7d" = some u.raw) ∧
    OccurIn ["\x7b\x7bB:k\x7d\x7d", "\x7b\x7bA:M\x7d\x7d", "\x7b\x7bA:X\x7d\x7d",
      "\x7b\x7bA:N\x7d\x7d"] (unfinished.expand source ⟨3⟩).text ∧
    (unfinished.expand "\x7b\x7bB:k\x7d\x7d \x7b\x7bA:N\x7d\x7d" ⟨3⟩).text =
      "\x7b\x7bB:k\x7d\x7d \x7b\x7bA:N\x7d\x7d" := by
  intro source
  have hraws : (unfinished.expand source ⟨3⟩).unresolved.map (fun u => (u.raw, u.via)) =
      [("\x7b\x7bB:k\x7d\x7d", none), ("\x7b\x7bA:M\x7d\x7d", some ⟨"A", "X"⟩),
        ("\x7b\x7bA:X\x7d\x7d", some ⟨"A", "X"⟩), ("\x7b\x7bA:N\x7d\x7d", none)] := by
    decide +kernel
  have hparts : (unfinished.expand source ⟨3⟩).unresolved.map (·.raw) =
      ["\x7b\x7bB:k\x7d\x7d", "\x7b\x7bA:M\x7d\x7d", "\x7b\x7bA:X\x7d\x7d",
        "\x7b\x7bA:N\x7d\x7d"] := by
    have hfirst := congrArg (List.map Prod.fst) hraws
    rw [List.map_map] at hfirst
    exact hfirst
  have hvalue : unfinished.lookup ⟨"A", "X"⟩ =
      .found "<\x7b\x7bA:M\x7d\x7d>, \x7b\x7bA:X\x7d\x7d" := by
    decide +kernel
  have hinert : Inert unfinished.lookup "\x7b\x7bB:k\x7d\x7d \x7b\x7bA:N\x7d\x7d" := by
    have hnone : ∀ p ∈ placeholders "\x7b\x7bB:k\x7d\x7d \x7b\x7bA:N\x7d\x7d",
        (unfinished.lookup p.name).value? = none := by
      decide +kernel
    rintro _ ⟨p, hp, rfl⟩ value hfound
    have hsome := hnone p hp
    rw [hfound] at hsome
    cases hsome
  obtain ⟨hplaces, -, hoccur, -⟩ := what_is_left_stays_in_place unfinished source ⟨3⟩
  refine ⟨hraws, fun u hu hvia => ?_, hparts ▸ hoccur,
    ((what_is_left_stays_in_place unfinished _ ⟨3⟩).2.2.2 hinert).1⟩
  obtain ⟨⟨value, hfound, hslice⟩, -⟩ := (hplaces u hu).2.2 _ hvia
  rw [hvalue] at hfound
  exact Resolution.found.inj hfound ▸ hslice

end LinkExpr
