import LinkExpr.Excerpt

/-!
# Diagnostics and status messages

What goes wrong is described by a value of its own type; `Reportable` says how such a value is
worded. A `Diagnostic` is the wording together with an excerpt of the source, a `StatusMessage` is
the wording on a single line.
-/

namespace LinkExpr

/-- What is said in addition to the main message of a diagnostic. -/
inductive Remark
  /-- Further information. -/
  | note (text : String)
  /-- A suggestion that would resolve the problem. -/
  | help (text : String)
deriving DecidableEq, Repr

/-- A remark on one line. -/
def Remark.line : Remark → String
  | .note text => "note: " ++ text
  | .help text => "help: " ++ text

/-- Problems that can be shown to a user. -/
class Reportable (α : Type) where
  /-- The main message. -/
  message : α → String
  /-- What is said in addition. -/
  remarks : α → List Remark := fun _ => []
  /-- Where the problem lies in a source text, if it lies there. -/
  excerpt? : α → String → Option Excerpt := fun _ _ => none

/-- A problem as it is shown to a user, with the configuration field it belongs to. -/
structure Diagnostic where
  label : Option String
  message : String
  excerpt : Option Excerpt
  remarks : List Remark
deriving DecidableEq, Repr

namespace Diagnostic

variable {α : Type} [Reportable α]

/-- A problem without a place. -/
def of (problem : α) : Diagnostic :=
  ⟨none, Reportable.message problem, none, Reportable.remarks problem⟩

/-- A problem with its place in a source. -/
def locatedIn (problem : α) (source : String) : Diagnostic :=
  { of problem with excerpt := Reportable.excerpt? problem source }

/-- Names the configuration field a diagnostic belongs to. -/
def withLabel (d : Diagnostic) (label : String) : Diagnostic :=
  { d with label := some label }

end Diagnostic

/-- A diagnostic keeps its place whatever source it is shown with. -/
instance : Reportable Diagnostic where
  message := Diagnostic.message
  remarks := Diagnostic.remarks
  excerpt? d _ := d.excerpt

/-- A message for hosts that show one line per problem. -/
structure StatusMessage where
  message : String
deriving DecidableEq, Repr

/-- The message of a problem, with what is said in addition in parentheses. -/
def StatusMessage.of {α : Type} [Reportable α] (problem : α) : StatusMessage :=
  let message := Reportable.message problem
  match Reportable.remarks problem with
  | [] => ⟨message⟩
  | remarks => ⟨message ++ " (" ++ "; ".intercalate (remarks.map Remark.line) ++ ")"⟩

end LinkExpr
