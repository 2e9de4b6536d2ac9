import LinkExpr.Command
import LinkExpr.Proofs.Expansion.Malformed
import LinkExpr.Proofs.Report.Events
import LinkExpr.Proofs.Report.Rendering
import Mathlib.Data.String.Basic

/-!
# Every Problem Is Reported Once

The report on an expansion shows what is malformed in the expression with its place. For this it
scans the expression once more, and it passes over as many errors of the expansion. That is right
because the errors of a text come before those of its values, at every level: the errors that are
passed over are those that are shown, and all others come from values.

Standard error begins with the log, which the command finishes before it reports. By default it
warns of cycles and of the limit of the depth; the diagnostics behind it do not depend on it.

## Main results

* `errors_expandToDepth`: the errors of the expression itself come first.
* `exists_malformed_of_mem_valueErrors`: the other errors are about texts at the ends of chains.
* `map_line_expansionWarnings`: the warnings say what the status messages of the expansion say.
* `warningText_expansion`: how they are shown.
* `every_problem_is_reported_once`: what the command writes.
-/

namespace LinkExpr

/-! ### The errors of an expansion -/

section Errors

variable {lookup : Name → Resolution} {limit : ℕ} {source : String} {m : StatusMessage}

/-- The errors of the values that the placeholders of a text are replaced by. -/
def valueErrors (lookup : Name → Resolution) (limit : ℕ) (source : String) : List StatusMessage :=
  (placeholders source).flatMap fun p =>
    (expandToken lookup [] (expandLink lookup limit) (.placeholder p)).errors

/-- **The errors of a text come first**, and those of its values follow. -/
theorem errors_expandToDepth : (expandToDepth lookup limit source).errors =
    (scan source).malformed.map StatusMessage.of ++ valueErrors lookup limit source := by
  rw [expandToDepth_eq, errors_expandLevel, valueErrors]

/-- An error of a value is about a text that one or more names lead to. -/
theorem exists_malformed_of_mem_valueErrors (h : m ∈ valueErrors lookup limit source) :
    ∃ names text, names ≠ [] ∧ Chain lookup source names text ∧
      m ∈ (scan text).malformed.map StatusMessage.of := by
  obtain ⟨p, hp, hm⟩ := List.mem_flatMap.mp h
  obtain ⟨-, value, hlookup, -, hvalue⟩ := mem_errors_expandToken_iff.mp hm
  by_cases hshallow : limit ≤ 1
  · rw [expandLink_shallow hshallow] at hvalue
    cases hvalue
  · rw [expandLink_deep hshallow] at hvalue
    obtain ⟨names, text, hchain, -, -, -, htext⟩ :=
      (mem_errors_expandLevels_iff (List.pairwise_singleton _ p.name)).mp hvalue
    exact ⟨names ++ [p.name], text, List.append_ne_nil_of_right_ne_nil _ (List.cons_ne_nil _ _),
      chain_concat_iff.mpr ⟨⟨p, hp, rfl⟩, value, hlookup, hchain⟩, htext⟩

end Errors

/-! ### Warnings -/

namespace Warning

/-- What a warning says, on one line. -/
def line : Warning → StatusMessage
  | diagnostic d => .of d
  | status m => m

/-- The warning of an unresolved placeholder. It has a place if the placeholder stands in the
expression itself. -/
def ofUnresolved (expression : String) (u : Unresolved) : Warning :=
  .diagnostic ⟨some expressionLabel, Reportable.message u,
    if u.via = none then some (.ofSpan expression u.span) else none, u.remarks⟩

/-- The warning of malformed text in the expression, with its place. -/
def ofMalformed (expression : String) (m : Malformed) : Warning :=
  .diagnostic ⟨some expressionLabel, Reportable.message m, some (.ofSpan expression m.span),
    [m.fault.remark]⟩

end Warning

section Warnings

variable {expression : String} {e : Expansion} {errors : List StatusMessage}

theorem ofProblem_unresolved (expression : String) (u : Unresolved) :
    Warning.ofProblem expression u = .ofUnresolved expression u := by
  rw [Warning.ofUnresolved]
  cases hvia : u.via <;>
    simp [Warning.ofProblem, Diagnostic.locatedIn, Diagnostic.withLabel, Diagnostic.of,
      Reportable.excerpt?, Reportable.remarks, hvia]

/-- The errors of the expression itself are shown with their places, and all others on a line. -/
theorem expansionWarnings_eq
    (h : e.errors = (scan expression).malformed.map StatusMessage.of ++ errors) :
    Report.expansionWarnings expression e =
      e.unresolved.map (Warning.ofUnresolved expression) ++
        (scan expression).malformed.map (Warning.ofMalformed expression) ++
          errors.map Warning.status := by
  have hrest : e.errors.drop (scan expression).malformed.length = errors := by
    rw [h, List.drop_left' (List.length_map _)]
  have hunresolved : e.unresolved.map (Warning.ofProblem expression) =
      e.unresolved.map (Warning.ofUnresolved expression) :=
    List.map_congr_left fun u _ => ofProblem_unresolved expression u
  rw [Report.expansionWarnings, hrest, hunresolved]
  rfl

/-- **The warnings say what the status messages say**, each of them once and in their order. -/
theorem map_line_expansionWarnings
    (h : e.errors = (scan expression).malformed.map StatusMessage.of ++ errors) :
    (Report.expansionWarnings expression e).map Warning.line = e.statusMessages := by
  rw [expansionWarnings_eq h, Expansion.statusMessages, h, List.map_append, List.map_append,
    List.map_map, List.map_map, List.map_map, List.append_assoc]
  congr 2
  exact List.map_id errors

/-- All warnings are about the expression, so that it is the text whose lines they show. -/
theorem isOfExpression_of_mem {w : Warning} (h : w ∈ Report.expansionWarnings expression e) :
    w.IsOfExpression := by
  rw [Report.expansionWarnings, Report.malformedWarnings, List.mem_append, List.mem_append] at h
  rcases h with (hunresolved | hmalformed) | hstatus
  · obtain ⟨u, -, rfl⟩ := List.mem_map.mp hunresolved
    rfl
  · obtain ⟨m, -, rfl⟩ := List.mem_map.mp hmalformed
    rfl
  · obtain ⟨m, -, rfl⟩ := List.mem_map.mp hstatus
    trivial

/-- **How the warnings are shown**, one after the other. -/
theorem warningText_expansion (expression : String) (e : Expansion) :
    (Report.ofExpansion expression e).warningText =
      String.join ((Report.expansionWarnings expression e).map Warning.shown) := by
  rw [Report.warningText, Report.ofExpansion]
  congr 1
  exact List.map_congr_left fun w hw => Warning.render_eq_shown (isOfExpression_of_mem hw)

end Warnings

/-- An invocation of an expansion writes the log before the warnings. -/
theorem run_expand (logger : Logger) (verbose : Bool) {expression document : String}
    {contents? : Option String} {d : ContextDocument} {maxDepth : UInt64}
    (hload : load ContextDocument.read document contents? = .ok d) :
    (Invocation.mk verbose (.expand expression document maxDepth false)).run logger contents? =
      ⟨0, plainRuns [(d.context.expand expression ⟨maxDepth⟩).text ++ "\n"],
        logger.text verbose (loadingEvents document contents? ++
            d.context.expansionEvents expression ⟨maxDepth⟩) ++
          String.join ((Report.expansionWarnings expression
            (d.context.expand expression ⟨maxDepth⟩)).map Warning.shown)⟩ := by
  rw [← warningText_expansion, Invocation.run, Command.run, Command.events, hload]
  rfl

/-- **Every problem is reported once.** The errors of an expansion begin with those of the
expression itself; every other one is about a value that one or more names lead to. The command
shows a diagnostic for every unresolved placeholder, one with its place for everything malformed in
the expression, and a line for every other error: one warning for each unresolved placeholder and
each error, which says the same. The log comes before them. Its warnings are about the cycles and
the limit of the depth among the unresolved placeholders, and by default it consists of these. -/
theorem every_problem_is_reported_once (expression : String) :
    (∀ (c : Context) (options : ExpansionOptions), ∃ nested : List StatusMessage,
      (c.expand expression options).errors =
        (scan expression).malformed.map StatusMessage.of ++ nested ∧
      ∀ m ∈ nested, ∃ names text, names ≠ [] ∧ Chain c.lookup expression names text ∧
        m ∈ (scan text).malformed.map StatusMessage.of) ∧
    ∀ (logger : Logger) (verbose : Bool) (document : String) (contents? : Option String)
      (d : ContextDocument) (maxDepth : UInt64),
      load ContextDocument.read document contents? = .ok d →
      let options : ExpansionOptions := ⟨maxDepth⟩
      let e := d.context.expand expression options
      let events := loadingEvents document contents? ++ d.context.expansionEvents expression options
      let warned := e.unresolved.filterMap (Unresolved.event? options.depth)
      ∃ nested : List StatusMessage,
        e.errors = (scan expression).malformed.map StatusMessage.of ++ nested ∧
        let warnings := e.unresolved.map (Warning.ofUnresolved expression) ++
          (scan expression).malformed.map (Warning.ofMalformed expression) ++
            nested.map Warning.status
        (Invocation.mk verbose (.expand expression document maxDepth false)).run logger contents? =
          ⟨0, plainRuns [e.text ++ "\n"],
            logger.text verbose events ++ String.join (warnings.map Warning.shown)⟩ ∧
        warnings.map Warning.line = e.unresolved.map StatusMessage.of ++ e.errors ∧
        events.filter LogEvent.isWarning = warned ∧
        (logger.selection? = none → logger.text false events = logger.lines warned) := by
  constructor
  · intro c options
    exact ⟨valueErrors c.lookup options.depth expression, errors_expandToDepth,
      fun m hm => exists_malformed_of_mem_valueErrors hm⟩
  · intro logger verbose document contents? d maxDepth hload options e events warned
    have herrors : e.errors = _ := errors_expandToDepth
    have hwarned : events.filter LogEvent.isWarning = warned := by
      rw [List.filter_append, filter_isWarning_loadingEvents, List.nil_append]
      exact filter_isWarning_expansionEvents d.context expression options
    refine ⟨_, herrors, ?_, ?_, hwarned, ?_⟩
    · rw [run_expand logger verbose hload, ← expansionWarnings_eq herrors]
    · rw [← expansionWarnings_eq herrors]
      exact map_line_expansionWarnings herrors
    · intro hdefault
      rw [Logger.text_default hdefault, hwarned]

/-- A document is loaded if its path has a format in which it can be read. -/
theorem load_eq_ok {α : Type} {read : ReadShape α} {path contents : String}
    {format : DocumentFormat} {value : α} (hformat : DocumentFormat.ofPath path = .ok format)
    (hread : format.parse? read contents = some value) :
    load read path (some contents) = .ok value := by
  have hparse : format.parse read contents = .ok value := by rw [DocumentFormat.parse, hread]
  rw [load, hformat]
  exact hparse

/-- A text that mentions a value, with malformed text behind it. -/
def urlThenMalformed : String := "\x7b\x7bP:URL\x7d\x7d \x7b\x7bx\x7d\x7d"

/-- A document of one scope, whose only value mentions itself behind malformed text. -/
def loopingUrl : String :=
  "\x7b\"namespaces\":[\"P\"],\"scopes\":[\x7b\"name\":\"s\",\"values\":\x7b\"P\":" ++
    "\x7b\"URL\":\"\x7b\x7bhost\x7d\x7d:\x7b\x7bP:URL\x7d\x7d\"\x7d\x7d\x7d]\x7d"

/-- The context that the document describes. -/
def loopingUrlContext : ContextDocument where
  codes := ["P"]
  scopes := [(Scope.empty "s").insert "P" "URL"
    "\x7b\x7bhost\x7d\x7d:\x7b\x7bP:URL\x7d\x7d"]

theorem load_loopingUrl :
    load ContextDocument.read "c.json" (some loopingUrl) = .ok loopingUrlContext := by
  have hname : "c.json".splitOn "/" = ["c.json"] := by
    simp +decide [String.splitOn, String.splitOnAux, String.Pos.Raw.get, String.Pos.Raw.next]
  have hparts : "c.json".splitOn "." = ["c", "json"] := by
    simp +decide [String.splitOn, String.splitOnAux, String.Pos.Raw.get, String.Pos.Raw.next]
  have hextension : fileExtension? "c.json" = some "json" := by
    simp [fileExtension?, fileName?, hname, hparts]
  have hformat : DocumentFormat.ofPath "c.json" = .ok .json := by
    rw [DocumentFormat.ofPath, hextension]
    decide +kernel
  exact load_eq_ok hformat (by decide +kernel)

/-- Two problems of a value are told apart from that of the expression, which comes between them.
Without a log they are all there is; with one, it warns of the first of them. -/
theorem problems_of_value_around_that_of_expression :
    load ContextDocument.read "c.json" (some loopingUrl) = .ok loopingUrlContext ∧
    ((Invocation.mk false (.expand urlThenMalformed "c.json" 2 false)).run .silent
        (some loopingUrl)).errors =
      "warning: placeholder `\x7b\x7bP:URL\x7d\x7d` refers back to itself\n" ++
      "  = note: found in the value of `\x7b\x7bP:URL\x7d\x7d`\n" ++
      "  = help: break the cycle by giving one of the values a literal\n\n" ++
      "warning: placeholder `\x7b\x7bx\x7d\x7d` is missing a `:` between namespace and key\n" ++
      " --> expression:1:11\n" ++
      "  | \n" ++
      "1 | \x7b\x7bP:URL\x7d\x7d \x7b\x7bx\x7d\x7d\n" ++
      "  |           ^----\n" ++
      "  = help: placeholders are written as `\x7b\x7bNAMESPACE:KEY\x7d\x7d`\n\n" ++
      "warning: placeholder `\x7b\x7bhost\x7d\x7d` is missing a `:` between namespace and key " ++
      "(help: placeholders are written as `\x7b\x7bNAMESPACE:KEY\x7d\x7d`)\n\n" ∧
    (loadingEvents "c.json" (some loopingUrl) ++
        loopingUrlContext.context.expansionEvents urlThenMalformed ⟨2⟩).filter LogEvent.isWarning =
      [.backReference "\x7b\x7bP:URL\x7d\x7d"] := by
  refine ⟨load_loopingUrl, ?_⟩
  obtain ⟨nested, herrors, hrun, -, hwarned, -⟩ :=
    (every_problem_is_reported_once urlThenMalformed).2 .silent false "c.json" (some loopingUrl)
      loopingUrlContext 2 load_loopingUrl
  have hexpansion : (loopingUrlContext.context.expand urlThenMalformed ⟨2⟩).errors =
      (scan urlThenMalformed).malformed.map StatusMessage.of ++
        (scan "\x7b\x7bhost\x7d\x7d").malformed.map StatusMessage.of := by decide +kernel
  -- what is behind the errors of the expression comes from the value
  have hnested := List.append_cancel_left (herrors.symm.trans hexpansion)
  constructor
  · rw [hrun, hnested, Logger.text_silent, String.empty_append]
    decide +kernel
  · rw [hwarned]
    decide +kernel

end LinkExpr
