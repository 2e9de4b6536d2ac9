import LinkExpr.Logging
import LinkExpr.Proofs.Expansion.Levels

/-!
# Warnings in the Log

An expansion warns of the placeholders that it leaves as they are although their names have values:
those that refer back to an active name, and those at the limit of the depth. The events of an
expansion are collected level by level, as the expansion itself is. So the warnings among them are
found again among the unresolved placeholders, in the same order, and no other event is a warning.

## Main results

* `filter_isWarning_levelsEvents`: the warnings of the levels of an expansion.
* `filter_isWarning_expansionEvents`: the warnings of an expansion.
* `Logger.text_default`: what is written of the events of an expansion by default.
-/

namespace LinkExpr

/-- Whether an event is a warning. -/
def LogEvent.isWarning (event : LogEvent) : Bool := event.level = .warn

/-- The event that an unresolved placeholder was warned of with, if there was one. -/
def Unresolved.event? (depth : ℕ) (u : Unresolved) : Option LogEvent :=
  match u.reason with
  | .cycle => some (.backReference u.raw)
  | .depthExceeded => some (.depthLimit u.raw depth)
  | .notFound | .unknownNamespace => none

section Levels

variable {c : Context} {active : List Name} {depth : ℕ} {source : String} {p : Placeholder}
  {onLink : Placeholder → String → Expansion}
  {events : Placeholder → String → List LogEvent}

/-- Nobody is warned when a value is found. -/
theorem filter_isWarning_lookupEvents (c : Context) (name : Name) :
    (c.lookupEvents name).filter LogEvent.isWarning = [] := by
  rw [Context.lookupEvents]
  cases c.registry.resolver? name.code with
  | none => rfl
  | some resolver =>
      cases hscope : c.scopes.find? fun scope => (resolver name.key scope).isSome with
      | none => simp only [hscope, List.filter_nil]
      | some scope =>
          simp only [hscope]
          rfl

/-- The warnings of a placeholder are about what it leaves, if those of its value are. -/
theorem filter_isWarning_tokenEvents
    (h : ∀ value, (events p value).filter LogEvent.isWarning =
      (onLink p value).unresolved.filterMap (Unresolved.event? depth)) :
    (tokenEvents c active events (.placeholder p)).filter LogEvent.isWarning =
      (expandToken c.lookup active onLink (.placeholder p)).unresolved.filterMap
        (Unresolved.event? depth) := by
  rw [tokenEvents, expandToken]
  by_cases hmem : p.name ∈ active
  · rw [if_pos hmem, if_pos hmem]
    rfl
  · rw [if_neg hmem, if_neg hmem, List.filter_append, filter_isWarning_lookupEvents,
      List.nil_append]
    cases c.lookup p.name with
    | notFound | unknownNamespace => rfl
    | found value =>
        by_cases hlink : isLink value = true
        · simp only [hlink, if_true]
          exact h value
        · simp only [hlink, Bool.false_eq_true, if_false]
          rfl

theorem filter_isWarning_levelEvents
    (h : ∀ p value, (events p value).filter LogEvent.isWarning =
      (onLink p value).unresolved.filterMap (Unresolved.event? depth)) :
    (levelEvents c active events source).filter LogEvent.isWarning =
      (expandLevel c.lookup active onLink source).unresolved.filterMap
        (Unresolved.event? depth) := by
  rw [levelEvents, flatMap_tokens (fun _ _ => rfl), unresolved_expandLevel, List.filter_flatMap,
    List.filterMap_flatMap]
  congr 1
  funext p
  exact filter_isWarning_tokenEvents (h p)

/-- **The warnings of the levels** of an expansion are about what they leave. -/
theorem filter_isWarning_levelsEvents (c : Context) (depth levels : ℕ) (active : List Name)
    (source : String) :
    (levelsEvents c depth levels active source).filter LogEvent.isWarning =
      (expandLevels c.lookup levels active source).unresolved.filterMap
        (Unresolved.event? depth) := by
  induction levels generalizing active source with
  | zero => exact filter_isWarning_levelEvents fun _ _ => rfl
  | succ levels ih => exact filter_isWarning_levelEvents fun p value => ih (p.name :: active) value

end Levels

/-- **The warnings of an expansion** are about the placeholders that it leaves because of a cycle or
of the depth, one for each of them and in their order. -/
theorem filter_isWarning_expansionEvents (c : Context) (source : String)
    (options : ExpansionOptions) :
    (c.expansionEvents source options).filter LogEvent.isWarning =
      (c.expand source options).unresolved.filterMap (Unresolved.event? options.depth) := by
  have hlast (count : ℕ) : (if count = 0 then [] else
      [LogEvent.leftUnresolved source count]).filter LogEvent.isWarning = [] := by
    split <;> rfl
  rw [Context.expansionEvents, List.filter_append, hlast, List.append_nil, Context.expand,
    expandToDepth]
  split
  · exact filter_isWarning_levelEvents fun _ _ => rfl
  · exact filter_isWarning_levelsEvents c options.depth _ [] source

/-- Nobody is warned that a document is loaded. -/
theorem filter_isWarning_loadingEvents (path : String) (contents? : Option String) :
    (loadingEvents path contents?).filter LogEvent.isWarning = [] := by
  unfold loadingEvents
  split <;> rfl

/-- By default the log consists of the warnings. -/
theorem Logger.text_default {logger : Logger} (h : logger.selection? = none)
    (events : List LogEvent) :
    logger.text false events = logger.lines (events.filter LogEvent.isWarning) := by
  have hselects : logger.selects false = LogEvent.isWarning := by
    funext event
    rw [Logger.selects, h, LogEvent.isWarning]
    cases event.level <;> rfl
  rw [Logger.text, hselects]

end LinkExpr
