import LinkExpr.Table

/-!
# Template variables

A template declares variables. Each gets the value that the user entered, or else its default; a
boolean variable without either is false, and any other is left without a value.
-/

namespace LinkExpr.Template

/-- The type of a template variable. -/
inductive VariableType
  | boolean
  | numeric
  | password
  | string
deriving DecidableEq, Repr

/-- A variable that a template declares. -/
structure Variable where
  id : String
  name : Option String
  description : Option String
  type : VariableType
  defaultValue : Option String
deriving DecidableEq, Repr

/-- A variable with neither texts nor a default. -/
def Variable.ofType (id : String) (type : VariableType) : Variable := ⟨id, none, none, type, none⟩

/-- Gives a variable a default. -/
def Variable.withDefault (v : Variable) (value : String) : Variable :=
  { v with defaultValue := some value }

/-- The values of variables by id. -/
abbrev Values := Table String

/-- The value that a definition contributes. -/
def Variable.contribution? (v : Variable) (user : Values) : Option String :=
  match user.get? v.id, v.defaultValue with
  | some value, _ => some value
  | none, some value => some value
  | none, none => if v.type = .boolean then some "false" else none

/-- The values of all variables. Of several definitions of an id the first decides the place and the
last the value. -/
def Values.ofDefinitions (definitions : List Variable) (user : Values) : Values :=
  .ofList (definitions.filterMap fun v => (v.contribution? user).map fun value => (v.id, value))

end LinkExpr.Template
