import LinkExpr.Proofs.Expansion.Expander
import LinkExpr.Proofs.Expansion.Iteration

/-!
# Values Inserted Verbatim

The expander does not enter a value that is not a link; it writes the value down as it is. Entering
it would come to the same. All tokens of such a value are literals, whatever is malformed, nested or
unterminated in it, and together they are the value. A level of literals is handled without looking
anything up: nothing is left unresolved, and no name becomes active.

The two ways differ in one respect: what is malformed in a value is reported where it is entered.
A step does not depend on what was written down before, so the difference stays what it is until the
expander comes to its end.

## Main results

* `isLink_iff_placeholders_ne_nil`: a text is a link exactly if it has a placeholder.
* `Expander.runs_literals`: a level of literals, by induction on the tokens.
* `Expander.step_after`: a step does not depend on what was written down before.
* `Expander.Agree.step`, `Expander.Agree.runs`: states that differ in their errors alone go on
  alike.
* `verbatim_value_agrees_with_expansion`: what is written for a value that is not a link.
-/

namespace LinkExpr

/-! ### Texts that are not links -/

section Links

variable {value : String} {token : Token}

/-- Looking for an opening marker first never hides a placeholder. -/
theorem hasPair_of_placeholders_ne_nil (h : placeholders value ≠ []) :
    HasPair '{' value.toList := by
  by_contra hopen
  exact h (placeholders_of_no_open (splitAtPair?_eq_none_iff.mpr hopen))

/-- **A text is a link** exactly if it has a placeholder. -/
theorem isLink_iff_placeholders_ne_nil : isLink value = true ↔ placeholders value ≠ [] := by
  rw [isLink_iff]
  constructor
  · rintro ⟨name, p, hp, -⟩
    exact List.ne_nil_of_mem hp
  · intro h
    obtain ⟨p, hp⟩ := List.exists_mem_of_ne_nil _ h
    exact ⟨p.name, p, hp, rfl⟩

/-- No token of a text that is not a link is a placeholder. -/
theorem placeholder?_eq_none_of_not_isLink (h : isLink value = false)
    (htoken : token ∈ (scan value).tokens) : token.placeholder? = none := by
  have hnil : placeholders value = [] :=
    placeholders_eq_nil_of_not_isLink (Bool.not_eq_true _ ▸ h)
  exact List.filterMap_eq_nil_iff.mp hnil token htoken

end Links

/-- Text is added piece by piece. -/
theorem Expansion.ofText_append (a b : String) : ofText (a ++ b) = ofText a ++ ofText b := rfl

namespace Expander

variable {lookup : Name → Resolution} {maxDepth : ℕ}

/-! ### Levels of literals -/

section Literals

variable {tokens : List Token} {depth : ℕ} {via : Option Name} {levels : List Level}
  {active : List Name} {result : Expansion} {value : String}

/-- **A level of literals** is handled in a run that writes down its tokens and nothing else,
whatever its depth and the name it was entered through. -/
theorem runs_literals (h : ∀ token ∈ tokens, token.placeholder? = none) :
    Runs lookup maxDepth ⟨⟨tokens, depth, via⟩ :: levels, active, result⟩
      ⟨⟨[], depth, via⟩ :: levels, active,
        result ++ .ofText (String.join (tokens.map Token.raw))⟩ := by
  induction tokens generalizing result with
  | nil =>
      have hempty : result ++ .ofText (String.join ([].map Token.raw)) = result :=
        Expansion.append_empty result
      rw [hempty]
      exact .refl
  | cons token tokens ih =>
      have hrest : ∀ token ∈ tokens, token.placeholder? = none :=
        fun other hother => h other (List.mem_cons_of_mem _ hother)
      cases token with
      | placeholder p => exact absurd (h _ List.mem_cons_self) (Option.some_ne_none p)
      | literal text span =>
          rw [List.map_cons, String.join_cons, Expansion.ofText_append, ← Expansion.append_assoc]
          exact .head rfl (ih hrest)

/-- A value that is not a link is entered and handled in a run that writes the value down and
reports what is malformed in it. -/
theorem runs_not_link (h : isLink value = false) (s : State) (depth : ℕ) (via : Option Name) :
    Runs lookup maxDepth (s.enter value depth via)
      { s.write ⟨value, [], (scan value).malformed.map StatusMessage.of⟩ with
        levels := ⟨[], depth, via⟩ :: s.levels } := by
  have hruns : Runs lookup maxDepth (s.enter value depth via)
      ⟨⟨[], depth, via⟩ :: s.levels, s.active,
        s.result ++ ⟨"", [], (scan value).malformed.map StatusMessage.of⟩ ++
          .ofText (String.join ((scan value).tokens.map Token.raw))⟩ :=
    runs_literals fun _ htoken => placeholder?_eq_none_of_not_isLink h htoken
  have hresult : (⟨"", [], (scan value).malformed.map StatusMessage.of⟩ : Expansion) ++
      .ofText value = ⟨value, [], (scan value).malformed.map StatusMessage.of⟩ := by
    ext1
    · exact String.empty_append
    · rfl
    · exact List.append_nil _
  rw [join_raw_tokens, Expansion.append_assoc, hresult] at hruns
  exact hruns

end Literals

/-! ### What has been written down -/

section Written

variable {s s' t : State} {e : Expansion}

/-- A state with something written down before all else. -/
def State.after (e : Expansion) (s : State) : State := { s with result := e ++ s.result }

theorem State.write_after (s : State) (x : Expansion) :
    (s.after e).write x = (s.write x).after e := by
  rw [State.write, State.after, State.after, State.write, Expansion.append_assoc]

theorem State.enter_after (s : State) (source : String) (depth : ℕ) (via : Option Name) :
    (s.after e).enter source depth via = (s.enter source depth via).after e := by
  rw [State.enter, State.write_after]
  rfl

/-- Handling a placeholder does not depend on what was written down before. -/
theorem expandPlaceholder_after (p : Placeholder) (depth : ℕ) (via : Option Name) (s : State) :
    expandPlaceholder lookup maxDepth p depth via (s.after e) =
      (expandPlaceholder lookup maxDepth p depth via s).after e := by
  have hleave : ∀ reason, (s.after e).leave p via reason = (s.leave p via reason).after e :=
    fun reason => s.write_after _
  have hactive : (s.after e).active = s.active := rfl
  simp only [expandPlaceholder, hactive]
  split
  · exact hleave .cycle
  · split
    · exact hleave .notFound
    · exact hleave .unknownNamespace
    · split
      · exact s.write_after _
      · split
        · exact hleave .depthExceeded
        · exact State.enter_after { s with active := p.name :: s.active } _ _ _

/-- **A step does not depend on what was written down before.** -/
theorem step_after (s : State) : step lookup maxDepth (s.after e) =
    (step lookup maxDepth s).map (State.after e) := by
  obtain ⟨levels, active, result⟩ := s
  match levels with
  | [] => rfl
  | ⟨[], depth, via⟩ :: levels => rfl
  | ⟨.literal text span :: rest, depth, via⟩ :: levels =>
      exact congrArg some (State.write_after ⟨⟨rest, depth, via⟩ :: levels, active, result⟩ _)
  | ⟨.placeholder p :: rest, depth, via⟩ :: levels =>
      exact congrArg some
        (expandPlaceholder_after p depth via ⟨⟨rest, depth, via⟩ :: levels, active, result⟩)

/-- Two states differ in their errors alone. -/
structure Agree (s t : State) : Prop where
  levels : s.levels = t.levels
  active : s.active = t.active
  text : s.result.text = t.result.text
  unresolved : s.result.unresolved = t.result.unresolved

namespace Agree

/-- States that agree are one state after two expansions. -/
theorem exists_after (h : Agree s t) :
    ∃ x : State, s = x.after s.result ∧ t = x.after t.result := by
  refine ⟨⟨s.levels, s.active, .empty⟩, ?_, ?_⟩
  · rw [State.after, Expansion.append_empty]
  · rw [State.after, Expansion.append_empty, h.levels, h.active]

/-- **States that agree make the same step.** -/
theorem step (h : Agree s t) (hstep : Steps lookup maxDepth s s') :
    ∃ t', Steps lookup maxDepth t t' ∧ Agree s' t' := by
  obtain ⟨x, hs, ht⟩ := h.exists_after
  rw [Steps, hs, step_after, Option.map_eq_some_iff] at hstep
  obtain ⟨x', hx, rfl⟩ := hstep
  have hnext : Expander.step lookup maxDepth (x.after t.result) = some (x'.after t.result) := by
    rw [step_after, hx]
    rfl
  rw [← ht] at hnext
  refine ⟨x'.after t.result, hnext, rfl, rfl, ?_, ?_⟩
  · exact congrArg (· ++ x'.result.text) h.text
  · exact congrArg (· ++ x'.result.unresolved) h.unresolved

/-- **States that agree go on alike.** -/
theorem runs (h : Agree s t) (hruns : Runs lookup maxDepth s s') :
    ∃ t', Runs lookup maxDepth t t' ∧ Agree s' t' := by
  induction hruns with
  | refl => exact ⟨t, .refl, h⟩
  | tail _ hstep ih =>
      obtain ⟨t', hruns, hagree⟩ := ih
      obtain ⟨t'', hlast, hagree'⟩ := hagree.step hstep
      exact ⟨t'', hruns.tail hlast, hagree'⟩

end Agree

end Written

/-! ### Both ways -/

/-- A fresh name that stands for a value that is not a link is handled by writing the value down. -/
theorem expandPlaceholder_of_not_isLink {p : Placeholder} {value : String} {s : State}
    (hlink : isLink value = false) (hfresh : p.name ∉ s.active)
    (hlookup : lookup p.name = .found value) (depth : ℕ) (via : Option Name) :
    expandPlaceholder lookup maxDepth p depth via s = s.write (.ofText value) := by
  rw [expandPlaceholder, if_neg hfresh, hlookup]
  exact if_pos (.inr hlink)

end Expander

/-- **The shortcut of the expander agrees with entering the value.** A text is a link exactly if it
has a placeholder, and it is not scanned only if it has no opening marker and so no placeholder. If
a text is not a link, then in whatever state, at whatever depth and through whatever name it is
entered, a run handles all of its tokens, writes down the text, leaves nothing unresolved and keeps
the active names; what is malformed in it is reported. A name that stands for the text is handled by
writing the text down. If the text is entered instead, with its name active, and left again, then
the state differs in its errors alone, and so does every state that is reached from there. -/
theorem verbatim_value_agrees_with_expansion (value : String) :
    (isLink value = true ↔ placeholders value ≠ []) ∧
    (placeholders value ≠ [] → HasPair '{' value.toList) ∧
    (isLink value = false →
      ∀ (lookup : Name → Resolution) (maxDepth : ℕ) (s : Expander.State) (depth : ℕ)
        (via : Option Name),
      (∃ t, Expander.Runs lookup maxDepth (s.enter value depth via) t ∧
        t.levels = ⟨[], depth, via⟩ :: s.levels ∧ t.active = s.active ∧
        t.result.text = s.result.text ++ value ∧ t.result.unresolved = s.result.unresolved ∧
        t.result.errors = s.result.errors ++ (scan value).malformed.map StatusMessage.of) ∧
      (∀ p : Placeholder, p.name ∉ s.active → lookup p.name = .found value →
        Expander.expandPlaceholder lookup maxDepth p depth via s = s.write (.ofText value) ∧
        ∃ t, Expander.Runs lookup maxDepth
            (Expander.State.enter { s with active := p.name :: s.active } value (depth + 1)
              (some p.name)) t ∧
          Expander.Agree (s.write (.ofText value)) t ∧
          ∀ s', Expander.Runs lookup maxDepth (s.write (.ofText value)) s' →
            ∃ t', Expander.Runs lookup maxDepth t t' ∧ Expander.Agree s' t')) := by
  refine ⟨isLink_iff_placeholders_ne_nil, hasPair_of_placeholders_ne_nil, ?_⟩
  intro hlink lookup maxDepth s depth via
  constructor
  · refine ⟨_, Expander.runs_not_link hlink s depth via, rfl, rfl, rfl, ?_, rfl⟩
    exact List.append_nil _
  · intro p hfresh hlookup
    have hagree : Expander.Agree (s.write (.ofText value))
        (s.write ⟨value, [], (scan value).malformed.map StatusMessage.of⟩) :=
      ⟨rfl, rfl, rfl, rfl⟩
    refine ⟨Expander.expandPlaceholder_of_not_isLink hlink hfresh hlookup depth via, _, ?_, hagree,
      fun s' hruns => hagree.runs hruns⟩
    -- the level is handled and then left, which makes its name inactive again
    exact (Expander.runs_not_link hlink { s with active := p.name :: s.active } (depth + 1)
      (some p.name)).tail rfl

/-- A value with nested, malformed and unterminated markers. -/
def tornValue : String := "\x7b\x7b\x7b\x7ba\x7d\x7d \x7b\x7b:k\x7d\x7d \x7b\x7bP:"

/-- A placeholder that may stand for it. -/
def tornLink : Placeholder where
  name := ⟨"P", "k"⟩
  raw := "\x7b\x7bP:k\x7d\x7d"
  span := .covering .start "\x7b\x7bP:k\x7d\x7d".toList

/-- The torn value is inserted as it is; entering it writes the same, and finds something malformed
in it. -/
theorem torn_value_is_inserted :
    (scan tornValue).malformed ≠ [] ∧
      Expander.expandPlaceholder (fun _ => .found tornValue) 8 tornLink 1 none ⟨[], [], .empty⟩ =
        ⟨[], [], .ofText tornValue⟩ ∧
      ∃ t, Expander.Runs (fun _ => .found tornValue) 8
          (Expander.State.enter ⟨[], [tornLink.name], .empty⟩ tornValue 2 (some tornLink.name)) t ∧
        t.active = [] ∧ t.result.text = tornValue ∧ t.result.unresolved = [] := by
  have hlink : isLink tornValue = false := by decide +kernel
  obtain ⟨-, -, hnotLink⟩ := verbatim_value_agrees_with_expansion tornValue
  obtain ⟨-, hinserted⟩ := hnotLink hlink (fun _ => .found tornValue) 8 ⟨[], [], .empty⟩ 1 none
  obtain ⟨hwritten, t, hruns, hagree, -⟩ := hinserted tornLink List.not_mem_nil rfl
  have htext : tornValue = t.result.text := by
    rw [← hagree.text]
    exact String.empty_append.symm
  refine ⟨by decide +kernel, ?_, t, hruns, hagree.active.symm, htext.symm, hagree.unresolved.symm⟩
  rw [hwritten, Expander.State.write, Expansion.empty_append]

end LinkExpr
