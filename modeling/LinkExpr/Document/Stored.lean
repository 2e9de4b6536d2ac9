import LinkExpr.Document.Shape
import LinkExpr.Value.Linked
import LinkExpr.Template.Substitution

/-!
# Stored values

How the values of this library are read from the shape of a format and written as JSON. Fields that
are absent are not written, and fields that may be missing get their usual value. A key that is
repeated in a table takes its last value at its first place.
-/

namespace LinkExpr

variable {m : Type → Type} {ν : Type} [Monad m]

namespace Shape

/-- A field that has to be there. -/
def field {α : Type} (s : Shape m ν) (fields : List (String × ν)) (name : String)
    (read : ν → m α) : m α :=
  match Table.find? name fields with
  | some value => read value
  | none => s.refuse

/-- A field that has a usual value. -/
def fieldOr {α : Type} (fields : List (String × ν)) (name : String) (read : ν → m α) (usual : α) :
    m α :=
  match Table.find? name fields with
  | some value => read value
  | none => pure usual

/-- A text that may be absent. -/
def optionalText (s : Shape m ν) (value : ν) : m (Option String) := do
  match ← s.optional value with
  | some value => some <$> s.text value
  | none => pure none

/-- A list whose items are read one after the other. -/
def listOf {α : Type} (s : Shape m ν) (read : ν → m α) (value : ν) : m (List α) := do
  (← s.list value).mapM read

/-- A table whose values are read one after the other. -/
def tableOf {α : Type} (s : Shape m ν) (read : ν → m α) (value : ν) : m (Table α) := do
  let entries ← (← s.table value).mapM fun (key, value) => (key, ·) <$> read value
  return .ofList entries

/-- A name out of those that stand for a value. -/
def choiceOf {α : Type} (s : Shape m ν) (ofName? : String → Option α) (value : ν) : m α := do
  match ofName? (← s.choice value) with
  | some a => pure a
  | none => s.refuse

end Shape

/-- A table as a JSON object. -/
def Table.toJson {α : Type} (write : α → Json) (t : Table α) : Json :=
  .object (t.entries.map fun (key, value) => (key, write value))

/-- The members of an object that are present. -/
def Json.ofFields (fields : List (String × Option Json)) : Json :=
  .object (fields.filterMap fun (key, value?) => value?.map fun value => (key, value))

/-! ### Linked values -/

namespace ValueType

/-- The name of a type in documents. -/
def name : ValueType → String
  | string => "STRING"
  | numeric => "NUMERIC"
  | boolean => "BOOLEAN"
  | password => "PASSWORD"
  | clientPort => "CLIENT_PORT"
  | serverPort => "SERVER_PORT"
  | url => "URL"

/-- All types. -/
def all : List ValueType := [string, numeric, boolean, password, clientPort, serverPort, url]

/-- The type of a name. -/
def ofName? (name : String) : Option ValueType := all.find? fun type => type.name = name

/-- A type is one of the names. -/
def read (s : Shape m ν) : ν → m ValueType := s.choiceOf ofName?

/-- A type as its name. -/
def toJson (type : ValueType) : Json := .string type.name

end ValueType

namespace LinkedValue

/-- Both fields may be missing or absent; the expression counts if both are there. -/
def read (s : Shape m ν) (value : ν) : m LinkedValue := do
  let fields ← s.record ["value", "linkExpression"] value
  let value? ← Shape.fieldOr fields "value" s.optionalText none
  let expression? ← Shape.fieldOr fields "linkExpression" s.optionalText none
  return .ofFields value? expression?

/-- A linked value as an object with the field that is set, if any. -/
def toJson (v : LinkedValue) : Json :=
  .ofFields [("value", v.value?.map .string), ("linkExpression", v.expression?.map .string)]

end LinkedValue

/-! ### Expansion -/

namespace ExpansionOptions

/-- The depth is a whole number of at most 64 bits. -/
def read (value : Json) : Option ExpansionOptions := do
  let fields ← Json.shape.record ["maxDepth"] value
  match Table.find? "maxDepth" fields with
  | some (.natural n) => if n < UInt64.size then some ⟨.ofNat n⟩ else none
  | _ => none

/-- The options as an object. -/
def toJson (options : ExpansionOptions) : Json :=
  .object [("maxDepth", .natural options.maxDepth.toNat)]

end ExpansionOptions

namespace StatusMessage

/-- A status message is a record of its text. -/
def read (s : Shape m ν) (value : ν) : m StatusMessage := do
  let fields ← s.record ["message"] value
  return ⟨← s.field fields "message" s.text⟩

/-- A status message as an object. -/
def toJson (message : StatusMessage) : Json := .object [("message", .string message.message)]

end StatusMessage

/-! ### Scopes and templates -/

namespace Scope

/-- A scope has a name; its values may be missing. -/
def read (s : Shape m ν) (value : ν) : m Scope := do
  let fields ← s.record ["name", "values"] value
  let name ← s.field fields "name" s.text
  let values ← Shape.fieldOr fields "values" (s.tableOf (s.tableOf s.text)) .empty
  return ⟨name, values⟩

/-- A scope as an object; its values by namespace and key. -/
def toJson (scope : Scope) : Json :=
  .object [("name", .string scope.name), ("values", scope.values.toJson (Table.toJson .string))]

end Scope

namespace Template

namespace VariableType

/-- The name of a type in documents. -/
def name : VariableType → String
  | boolean => "BOOLEAN"
  | numeric => "NUMERIC"
  | password => "PASSWORD"
  | string => "STRING"

/-- The type of a name; a string may also be called a text. -/
def ofName? : String → Option VariableType
  | "BOOLEAN" => some boolean
  | "NUMERIC" => some numeric
  | "PASSWORD" => some password
  | "STRING" | "TEXT" => some string
  | _ => none

/-- A type is one of the names. -/
def read (s : Shape m ν) : ν → m VariableType := s.choiceOf ofName?

/-- A type as its name. -/
def toJson (type : VariableType) : Json := .string type.name

end VariableType

namespace Variable

/-- Only the id has to be there. -/
def read (s : Shape m ν) (value : ν) : m Variable := do
  let fields ← s.record ["id", "name", "description", "type", "defaultValue"] value
  let id ← s.field fields "id" s.text
  let name ← Shape.fieldOr fields "name" s.optionalText none
  let description ← Shape.fieldOr fields "description" s.optionalText none
  let type ← Shape.fieldOr fields "type" (VariableType.read s) .string
  let defaultValue ← Shape.fieldOr fields "defaultValue" s.optionalText none
  return ⟨id, name, description, type, defaultValue⟩

/-- A variable as an object. -/
def toJson (v : Variable) : Json :=
  .ofFields [("id", some (.string v.id)), ("name", v.name.map .string),
    ("description", v.description.map .string), ("type", some v.type.toJson),
    ("defaultValue", v.defaultValue.map .string)]

end Variable

namespace Values

/-- The values are a table by the ids of the variables. -/
def read (s : Shape m ν) : ν → m Values := s.tableOf s.text

/-- The values as an object. -/
def toJson (values : Values) : Json := Table.toJson .string values

end Values

namespace Options

/-- The namespace may be missing or absent. -/
def read (s : Shape m ν) (value : ν) : m Options := do
  let fields ← s.record ["namespace"] value
  return ⟨← Shape.fieldOr fields "namespace" s.optionalText none⟩

/-- The options as an object. -/
def toJson (o : Options) : Json := .ofFields [("namespace", o.code.map .string)]

end Options

end Template

/-! ### Documents -/

/-- A stored context: the known namespaces, all plain, and the scopes in order of precedence. -/
structure ContextDocument where
  codes : List String
  scopes : List Scope
deriving DecidableEq, Repr

namespace ContextDocument

/-- The context that a document describes. -/
def context (d : ContextDocument) : Context := ⟨.ofPlain d.codes, d.scopes⟩

/-- Both fields may be missing. -/
def read (s : Shape m ν) (value : ν) : m ContextDocument := do
  let fields ← s.record ["namespaces", "scopes"] value
  let codes ← Shape.fieldOr fields "namespaces" (s.listOf s.text) []
  let scopes ← Shape.fieldOr fields "scopes" (s.listOf (Scope.read s)) []
  return ⟨codes, scopes⟩

/-- A stored context as an object. -/
def toJson (d : ContextDocument) : Json :=
  .object [("namespaces", .array (d.codes.map .string)),
    ("scopes", .array (d.scopes.map Scope.toJson))]

end ContextDocument

/-- The variables of a template and the values that the user entered. -/
structure TemplateDocument where
  definitions : List Template.Variable
  values : Template.Values
deriving DecidableEq, Repr

namespace TemplateDocument

/-- The values that are substituted. -/
def resolve (d : TemplateDocument) : Template.Values := .ofDefinitions d.definitions d.values

/-- Both fields may be missing. -/
def read (s : Shape m ν) (value : ν) : m TemplateDocument := do
  let fields ← s.record ["variables", "values"] value
  let definitions ← Shape.fieldOr fields "variables" (s.listOf (Template.Variable.read s)) []
  let values ← Shape.fieldOr fields "values" (Template.Values.read s) .empty
  return ⟨definitions, values⟩

/-- Variables and values as an object. -/
def toJson (d : TemplateDocument) : Json :=
  .object [("variables", .array (d.definitions.map Template.Variable.toJson)),
    ("values", Template.Values.toJson d.values)]

end TemplateDocument

end LinkExpr
