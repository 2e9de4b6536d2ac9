import LinkExpr.Expansion
import LinkExpr.Template.Substitution
import LinkExpr.Text.Quoted
import LinkExpr.Text.Terminal

/-!
# Reports

What a command has to say is a result and a list of warnings. A warning that has a place in the
expression shows the line it is in, with a caret and a run of dashes below the text it is about:

```text
warning: placeholder X is not defined
 --> expression:1:8
  |
1 | prefix-X
  |        ^
```

A line is made of runs of text between changes of style. No styles are written, but each run is made
plain on its own, so that a sequence that is left open in one run does not reach into the next.
-/

namespace LinkExpr

/-- Runs of text, each made plain on its own. -/
def plainRuns (runs : List String) : String := String.join (runs.map Text.Terminal.plain)

/-- A number of spaces. -/
def blanks (n : Nat) : String := String.ofList (List.replicate n ' ')

/-- A problem that does not keep a command from its result. -/
inductive Warning
  /-- A problem with its place, or without one if it does not lie in the expression. -/
  | diagnostic (d : Diagnostic)
  /-- A problem on one line. -/
  | status (m : StatusMessage)
deriving DecidableEq, Repr

namespace Remark

/-- The kind of a remark. -/
def kind : Remark → String
  | note _ => "note"
  | help _ => "help"

/-- The text of a remark. -/
def text : Remark → String
  | note text | help text => text

/-- A remark on a line of its own behind a margin. -/
def runs (margin : String) (r : Remark) : List String :=
  ["\n" ++ margin ++ " ", "=", " ", r.kind, ": " ++ r.text]

end Remark

namespace Excerpt

/-- The margin beside an excerpt, as wide as its line number. -/
def margin (e : Excerpt) : String := blanks (toString e.line).length

/-- Where an excerpt begins. -/
def place (label : String) (e : Excerpt) : String :=
  " " ++ label ++ ":" ++ toString e.line ++ ":" ++ toString e.column

/-- An excerpt on four lines: its place, an empty line, the line of the source, and the mark below
it. -/
def runs (label : String) (e : Excerpt) : List String :=
  ["\n ", "-->", place label e ++ "\n" ++ e.margin ++ " ", "|", " \n",
    toString e.line, " ", "|", " " ++ e.lineText ++ "\n" ++ e.margin ++ " ",
    "|", " " ++ blanks (e.column - 1), "^", String.ofList (List.replicate (e.length - 1) '-')]

end Excerpt

namespace Warning

/-- The name of the text that problems are shown in. -/
def expressionLabel : String := "expression"

/-- The message of a warning. -/
def messageRuns (message : String) : List String := ["warning", ": " ++ message]

/-- A warning as runs of text. -/
def runs : Warning → List String
  | status m => messageRuns m.message ++ ["\n\n"]
  | diagnostic d =>
      let place := match d.excerpt with
        | some e => e.runs (d.label.getD expressionLabel)
        | none => []
      let margin := match d.excerpt with
        | some e => e.margin
        | none => " "
      messageRuns d.message ++ place ++ d.remarks.flatMap (Remark.runs margin) ++ ["\n\n"]

/-- A warning as it is shown. -/
def render (w : Warning) : String := plainRuns w.runs

/-- The warning of a problem that lies in an expression. -/
def ofProblem {α : Type} [Reportable α] (expression : String) (problem : α) : Warning :=
  .diagnostic ((Diagnostic.locatedIn problem expression).withLabel expressionLabel)

end Warning

/-- What a command has to say: a result and warnings. -/
structure Report where
  result : String
  warnings : List Warning
deriving DecidableEq, Repr

namespace Report

/-- The warnings as they are shown, one after the other. -/
def warningText (r : Report) : String := String.join (r.warnings.map Warning.render)

/-! ### Expansions -/

/-- The warnings about the malformed text of an expression. -/
def malformedWarnings (expression : String) : List Warning :=
  (scan expression).malformed.map (Warning.ofProblem expression)

/-- The warnings about the expansion of an expression. What is malformed in the expression itself
comes first among the errors and is shown with its place instead. -/
def expansionWarnings (expression : String) (e : Expansion) : List Warning :=
  e.unresolved.map (Warning.ofProblem expression) ++ malformedWarnings expression ++
    (e.errors.drop (scan expression).malformed.length).map .status

/-- The report on the expansion of an expression. -/
def ofExpansion (expression : String) (e : Expansion) : Report :=
  ⟨plainRuns [e.text ++ "\n"], expansionWarnings expression e⟩

/-! ### Tokens -/

/-- What is listed about a token besides its place: what kind it is, and what it says. -/
def tokenColumns : Token → String × String
  | .literal text _ => ("literal    ", Text.quoteLiteral text)
  | .placeholder p => ("placeholder", p.name.code ++ " : " ++ p.name.key)

/-- A number set to the right of four columns. -/
def alignRight (n : Nat) : String := blanks (4 - (toString n).length) ++ toString n

/-- A number set to the left of four columns. -/
def alignLeft (n : Nat) : String := toString n ++ blanks (4 - (toString n).length)

/-- A token on a line of its own. -/
def tokenLine (t : Token) : String :=
  let (kind, detail) := tokenColumns t
  plainRuns [alignRight t.span.start.offset ++ ".." ++ alignLeft t.span.stop.offset ++ " ", kind,
    " " ++ detail ++ "\n"]

/-- The report on the tokens of an expression. -/
def ofTokens (expression : String) : Report :=
  ⟨String.join ((scan expression).tokens.map tokenLine), malformedWarnings expression⟩

/-! ### Templates -/

/-- The report on the substitution of a template. -/
def ofSubstitution (s : Template.Substitution) : Report :=
  ⟨plainRuns [s.output ++ "\n"], s.status.map .status⟩

end Report

end LinkExpr
