import LinkExpr.Document.Format
import LinkExpr.Document.Results
import LinkExpr.Json.Writer
import LinkExpr.Logging
import LinkExpr.Report

/-!
# Commands

A command says what to do with an expression or a template: expand it, list its tokens, or
substitute variables. Its arguments are options, in any order, and one text; after two dashes
nothing is taken for an option.

What a command itself writes depends on nothing but the command and the document it names. An
invocation also says whether more output is asked for; this only matters to the log, which is
written to standard error as well. All its lines come before what the command writes there, since a
command reports when its work is done.
-/

namespace LinkExpr

/-- What the program is asked for. -/
inductive Command
  /-- Expand an expression in the context that a document describes. -/
  | expand (expression document : String) (maxDepth : UInt64) (asJson : Bool)
  /-- List the tokens of an expression. -/
  | tokens (expression : String) (asJson : Bool)
  /-- Substitute the variables that a document describes, of one namespace if it is given. -/
  | template (text document : String) (code : Option String)
deriving DecidableEq, Repr

/-- A command, and whether more output is asked for with it. -/
structure Invocation where
  verbose : Bool
  command : Command
deriving DecidableEq, Repr

/-- Why arguments do not form a command. -/
inductive UsageFault
  | missingCommand
  | unknownCommand (name : String)
  | unexpected (argument : String)
  | missing (argument : String)
  | missingValue (option : String)
  | repeated (option : String)
  | invalidDepth (value : String)
deriving DecidableEq, Repr

/-- The text of a fault. -/
def UsageFault.message : UsageFault → String
  | missingCommand => "a command is required: expand, tokens or template"
  | unknownCommand name => "unrecognized command `" ++ name ++ "`"
  | unexpected argument => "unexpected argument `" ++ argument ++ "`"
  | missing argument => "the argument " ++ argument ++ " is required"
  | missingValue option => "a value is required for `" ++ option ++ "`"
  | repeated option => "the argument `" ++ option ++ "` cannot be used more than once"
  | invalidDepth value => "invalid depth `" ++ value ++ "`"

/-! ### Arguments -/

/-- Arguments by their kind. -/
structure Arguments where
  /-- Options without a value. -/
  flags : List String
  /-- Options with their values. -/
  options : List (String × String)
  /-- All other arguments. -/
  texts : List String
deriving DecidableEq, Repr

/-- The options that a command knows. -/
structure KnownOptions where
  flags : List String
  valued : List String

namespace Arguments

/-- No arguments. -/
def empty : Arguments := ⟨[], [], []⟩

/-- Whether an argument looks like an option. -/
def isOption (argument : String) : Bool :=
  match argument.toList with
  | '-' :: _ :: _ => true
  | _ => false

/-- The name of an option, and the value that is attached to it. -/
def splitOption (argument : String) : String × Option String :=
  match argument.toList.span (· ≠ '=') with
  | (name, _ :: value) => (String.ofList name, some (String.ofList value))
  | (_, []) => (argument, none)

/-- The flag of an argument; the one for more output has a short form. -/
def flagName (argument : String) : String := if argument = "-v" then "--verbose" else argument

/-- Reads arguments from the first to the last. -/
def read (known : KnownOptions) : List String → Except UsageFault Arguments
  | [] => .ok empty
  | "--" :: texts => .ok { empty with texts }
  | argument :: rest =>
      let (name, value?) := splitOption argument
      if !isOption argument then do
        let a ← read known rest
        return { a with texts := argument :: a.texts }
      else if known.flags.contains (flagName argument) then do
        let a ← read known rest
        return { a with flags := flagName argument :: a.flags }
      else if known.valued.contains name then
        match value?, rest with
        | some value, rest => do
            let a ← read known rest
            return { a with options := (name, value) :: a.options }
        | none, value :: rest =>
            if isOption value then .error (.missingValue name)
            else do
              let a ← read known rest
              return { a with options := (name, value) :: a.options }
        | none, [] => .error (.missingValue name)
      else .error (.unexpected argument)

/-- Whether a flag is given, which may happen once. -/
def flag (a : Arguments) (name : String) : Except UsageFault Bool :=
  match a.flags.count name with
  | 0 => .ok false
  | 1 => .ok true
  | _ => .error (.repeated name)

/-- The value of an option, which may be given once. -/
def option? (a : Arguments) (name : String) : Except UsageFault (Option String) :=
  match a.options.filter fun o => o.1 = name with
  | [] => .ok none
  | [(_, value)] => .ok (some value)
  | _ => .error (.repeated name)

/-- The path that an option names. -/
def path (a : Arguments) (name : String) : Except UsageFault String := do
  match ← a.option? name with
  | some "" => .error (.missingValue name)
  | some path => return path
  | none => .error (.missing name)

/-- The only text. -/
def text (a : Arguments) (name : String) : Except UsageFault String :=
  match a.texts with
  | [] => .error (.missing name)
  | [text] => .ok text
  | _ :: extra :: _ => .error (.unexpected extra)

end Arguments

namespace Invocation

/-- Reads a depth: a decimal number of at most 64 bits, maybe with a plus sign. -/
def readDepth (value : String) : Except UsageFault UInt64 :=
  let digits := match value.toList with
    | '+' :: digits => digits
    | digits => digits
  let n := Numeral.natOfDigits digits
  if digits ≠ [] && digits.all Char.isDigit && n < UInt64.size then .ok (.ofNat n)
  else .error (.invalidDepth value)

/-- Reads the arguments of a command. -/
def ofArguments (name : String) (arguments : List String) : Except UsageFault Invocation := do
  let verbose := "--verbose"
  match name with
  | "expand" =>
      let a ← Arguments.read ⟨[verbose, "--json"], ["--context", "--max-depth"]⟩ arguments
      let isVerbose ← a.flag verbose
      let depth ← match ← a.option? "--max-depth" with
        | some value => readDepth value
        | none => pure 1
      return ⟨isVerbose,
        .expand (← a.text "EXPR") (← a.path "--context") depth (← a.flag "--json")⟩
  | "tokens" =>
      let a ← Arguments.read ⟨[verbose, "--json"], []⟩ arguments
      let isVerbose ← a.flag verbose
      return ⟨isVerbose, .tokens (← a.text "EXPR") (← a.flag "--json")⟩
  | "template" =>
      let a ← Arguments.read ⟨[verbose], ["--variables", "--namespace"]⟩ arguments
      let isVerbose ← a.flag verbose
      return ⟨isVerbose,
        .template (← a.text "TEXT") (← a.path "--variables") (← a.option? "--namespace")⟩
  | _ => .error (.unknownCommand name)

/-- Reads an invocation; more output may also be asked for before the name of the command. -/
def parse : List String → Except UsageFault Invocation
  | [] => .error .missingCommand
  | argument :: rest =>
      if Arguments.flagName argument = "--verbose" then
        match rest with
        | [] => .error .missingCommand
        | name :: rest => do return { ← ofArguments name rest with verbose := true }
      else ofArguments argument rest

end Invocation

namespace Command

/-- Reads a command, whether more output is asked for or not. -/
def parse (arguments : List String) : Except UsageFault Command :=
  (Invocation.parse arguments).map Invocation.command

/-- The path of the document that a command needs. -/
def document? : Command → Option String
  | expand _ document _ _ => some document
  | tokens _ _ => none
  | template _ document _ => some document

end Command

/-! ### Outcomes -/

/-- What is written, and how it ends. -/
structure Outcome where
  code : Nat
  /-- What is written to standard output. -/
  output : String
  /-- What is written to standard error. -/
  errors : String
deriving DecidableEq, Repr

namespace Outcome

/-- A command that has reached its end. -/
def ofReport (r : Report) : Outcome := ⟨0, r.result, r.warningText⟩

/-- A command whose result is written as JSON. -/
def ofJson (result : Json) : Outcome := ⟨0, plainRuns [result.renderPretty ++ "\n"], ""⟩

/-- A command that could not load its document. A cause that has one of its own is numbered. -/
def ofLoadFailure (what path : String) (error : DocumentError) : Outcome :=
  let cause := match error with
    | .unknownFormat _ => error.message.replace "\n" "\n    "
    | .unreadable | .invalid _ => "0: " ++ error.message
  ⟨1, "", "Error: failed to load " ++ what ++ " from `" ++ path ++ "`\n\nCaused by:\n    " ++
    cause ++ "\n"⟩

/-- Arguments that do not form a command. -/
def ofUsageFault (fault : UsageFault) : Outcome := ⟨2, "", "error: " ++ fault.message ++ "\n"⟩

end Outcome

namespace Command

/-- Runs a command, where `contents?` is the text of its document if there is one. The log is not
part of what the command itself writes. -/
def run (command : Command) (contents? : Option String) : Outcome :=
  match command with
  | expand expression document maxDepth asJson =>
      match load ContextDocument.read document contents? with
      | .error error => .ofLoadFailure "context" document error
      | .ok d =>
          let expansion := d.context.expand expression ⟨maxDepth⟩
          if asJson then .ofJson expansion.toJson
          else .ofReport (.ofExpansion expression expansion)
  | tokens expression asJson =>
      if asJson then .ofJson (.array ((scan expression).tokens.map Token.toJson))
      else .ofReport (.ofTokens expression)
  | template text document code =>
      match load TemplateDocument.read document contents? with
      | .error error => .ofLoadFailure "template variables" document error
      | .ok d => .ofReport (.ofSubstitution (Template.substitute d.resolve ⟨code⟩ text))

/-- What a command reports as it happens. -/
def events (command : Command) (contents? : Option String) : List LogEvent :=
  match command with
  | expand expression document maxDepth _ =>
      loadingEvents document contents? ++ match load ContextDocument.read document contents? with
        | .error _ => []
        | .ok d => d.context.expansionEvents expression ⟨maxDepth⟩
  | tokens _ _ => []
  | template text document code =>
      loadingEvents document contents? ++ match load TemplateDocument.read document contents? with
        | .error _ => []
        | .ok d => Template.substitutionEvents d.resolve ⟨code⟩ text

end Command

/-- Runs an invocation: the log comes before what the command writes to standard error. -/
def Invocation.run (logger : Logger) (i : Invocation) (contents? : Option String) : Outcome :=
  let outcome := i.command.run contents?
  { outcome with
    errors := logger.text i.verbose (i.command.events contents?) ++ outcome.errors }

end LinkExpr
