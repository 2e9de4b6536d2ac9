import LinkExpr.Document.Format
import LinkExpr.Expansion
import LinkExpr.Template.Substitution

/-!
# Logging

What a command does is also reported as events, as it happens. Warnings tell of values that are left
alone although they could be found; the other events are of use to someone who looks for a mistake.

A `Logger` writes events down. It selects them as its environment says, or else by their level, and
nothing is assumed about the lines it writes: they hold the time of day, and maybe colours.
-/

namespace LinkExpr

/-- How much an event matters. -/
inductive LogLevel
  | trace
  | debug
  | warn
deriving DecidableEq, Repr

/-- A value that an event carries. -/
inductive LogValue
  /-- A text, to be written as a literal. -/
  | text (value : String)
  /-- A text that is written as it is. -/
  | verbatim (value : String)
  | number (value : Nat)
deriving DecidableEq, Repr

/-- Something that is reported as it happens. -/
structure LogEvent where
  level : LogLevel
  message : String
  /-- Named values. -/
  values : List (String × LogValue)
deriving DecidableEq, Repr

namespace LogEvent

/-- A document was read and is about to be parsed. -/
def loading (path : String) (format : DocumentFormat) : LogEvent :=
  let name := match format with
    | .yaml => "Yaml"
    | .json => "Json"
  ⟨.debug, "loading document", [("path", .verbatim path), ("format", .verbatim name)]⟩

/-- A value was found in a scope. -/
def resolved (name : Name) (scope : String) : LogEvent :=
  ⟨.trace, "resolved placeholder",
    [("namespace", .text name.code), ("key", .text name.key), ("scope", .text scope)]⟩

/-- A placeholder refers to an active name. -/
def backReference (raw : String) : LogEvent :=
  ⟨.warn, "linked value refers back to itself", [("placeholder", .text raw)]⟩

/-- The value of a placeholder is a link, and the limit of the depth is reached. -/
def depthLimit (raw : String) (depth : Nat) : LogEvent :=
  ⟨.warn, "expansion depth limit reached",
    [("placeholder", .text raw), ("max_depth", .number depth)]⟩

/-- An expansion has left placeholders as they are written. -/
def leftUnresolved (source : String) (count : Nat) : LogEvent :=
  ⟨.debug, "expression expanded with unresolved placeholders",
    [("expression", .text source), ("unresolved", .number count)]⟩

/-- A template variable has no value. -/
def missingVariable (id : String) : LogEvent :=
  ⟨.debug, "template variable has no value", [("variable", .text id)]⟩

end LogEvent

/-! ### The events of a command -/

/-- The events of loading a document from a path. -/
def loadingEvents (path : String) (contents? : Option String) : List LogEvent :=
  match DocumentFormat.ofPath path, contents? with
  | .ok format, some _ => [.loading path format]
  | _, _ => []

/-- The events of looking up a name: that of the scope it is found in. -/
def Context.lookupEvents (c : Context) (name : Name) : List LogEvent :=
  match c.registry.resolver? name.code with
  | none => []
  | some resolver =>
      match c.scopes.find? fun scope => (resolver name.key scope).isSome with
      | some scope => [.resolved name scope.name]
      | none => []

/-- The events of expanding a token, given those of a value that is a link. -/
def tokenEvents (c : Context) (active : List Name)
    (onLink : Placeholder → String → List LogEvent) : Token → List LogEvent
  | .literal _ _ => []
  | .placeholder p =>
      if p.name ∈ active then [.backReference p.raw]
      else c.lookupEvents p.name ++ match c.lookup p.name with
        | .found value => if isLink value then onLink p value else []
        | .notFound | .unknownNamespace => []

/-- The events of expanding the placeholders of a text, given those of a value that is a link. -/
def levelEvents (c : Context) (active : List Name)
    (onLink : Placeholder → String → List LogEvent) (source : String) : List LogEvent :=
  (scan source).tokens.flatMap (tokenEvents c active onLink)

/-- The events of expanding a text to a depth when values may be expanded for a number of further
levels. -/
def levelsEvents (c : Context) (depth : Nat) : (levels : Nat) → (active : List Name) →
    (source : String) → List LogEvent
  | 0, active => levelEvents c active fun p _ => [.depthLimit p.raw depth]
  | levels + 1, active => levelEvents c active fun p value =>
      levelsEvents c depth levels (p.name :: active) value

/-- The events of expanding a text, the last of which tells how much was left. -/
def Context.expansionEvents (c : Context) (source : String) (options : ExpansionOptions) :
    List LogEvent :=
  let events :=
    if options.depth ≤ 1 then levelEvents c [] (fun _ _ => []) source
    else levelsEvents c options.depth (options.depth - 1) [] source
  let count := (c.expand source options).unresolved.length
  events ++ if count = 0 then [] else [.leftUnresolved source count]

/-- The events of substituting the variables of a text: those of variables without a value. -/
def Template.substitutionEvents (values : Values) (o : Options) (source : String) :
    List LogEvent :=
  (scan source).tokens.flatMap fun
    | .literal _ _ => []
    | .placeholder p =>
        if o.appliesTo p && (values.get? p.name.key).isNone then [.missingVariable p.name.key]
        else []

/-! ### Loggers -/

/-- What writes events down. -/
structure Logger where
  /-- Which events the environment asks for, if it says so. -/
  selection? : Option (LogEvent → Bool)
  /-- The lines that are written for events. -/
  lines : List LogEvent → String

namespace Logger

/-- The logger of an environment that asks for no events. -/
def silent : Logger := ⟨some fun _ => false, fun _ => ""⟩

/-- Whether an event is written. Unless the environment says so, warnings are, and with more output
all but the traces. -/
def selects (logger : Logger) (verbose : Bool) (event : LogEvent) : Bool :=
  match logger.selection? with
  | some selects => selects event
  | none => match event.level with
    | .warn => true
    | .debug => verbose
    | .trace => false

/-- What is written about events. -/
def text (logger : Logger) (verbose : Bool) (events : List LogEvent) : String :=
  logger.lines (events.filter (logger.selects verbose))

@[simp] theorem text_silent (verbose : Bool) (events : List LogEvent) :
    silent.text verbose events = "" := rfl

end Logger

end LinkExpr
