import LinkExpr.Json.Basic

/-!
# Shapes of stored values

Stored documents come in more than one format, and the formats differ in how a value is taken
apart: what counts as a text, as an absent text, as a list. A `Shape` collects these decisions, so
that what a document consists of is written only once, for all formats.

`Json.shape` is the shape of JSON values. There a record may also be an array of its fields in
order, and a choice may be an object with the chosen name as its only key and null as its value.
-/

namespace LinkExpr

/-- How the values of a format are taken apart. Reading happens in a monad, in which a document may
be refused. -/
structure Shape (m : Type → Type) (ν : Type) where
  /-- Refuses the document. -/
  refuse : {α : Type} → m α
  /-- A text. -/
  text : ν → m String
  /-- A value that may be absent. -/
  optional : ν → m (Option ν)
  /-- The items of a list. -/
  list : ν → m (List ν)
  /-- The entries of a table in the order they are written, repeated keys included. -/
  table : ν → m (List (String × ν))
  /-- The given fields of a record that are present; each is there once at most, and all other
  fields are passed over. -/
  record : (fields : List String) → ν → m (List (String × ν))
  /-- One of several names. -/
  choice : ν → m String

/-- Whether one of the given fields occurs more than once. -/
def repeatsField {ν : Type} (fields : List String) (members : List (String × ν)) : Bool :=
  fields.any fun field => 1 < members.countP fun m => m.1 = field

/-- The given fields among the members of a record. -/
def selectFields {ν : Type} (fields : List String) (members : List (String × ν)) :
    Option (List (String × ν)) :=
  if repeatsField fields members then none
  else some (members.filter fun m => fields.contains m.1)

namespace Json

/-- The shape of JSON values. -/
def shape : Shape Option Json where
  refuse := none
  text
    | .string text => some text
    | _ => none
  optional
    | .null => some none
    | value => some (some value)
  list
    | .array items => some items
    | _ => none
  table
    | .object members => some members
    | _ => none
  record fields
    | .object members => selectFields fields members
    | .array items => if items.length ≤ fields.length then some (fields.zip items) else none
    | _ => none
  choice
    | .string name => some name
    | .object [(name, .null)] => some name
    | _ => none

end Json

end LinkExpr
