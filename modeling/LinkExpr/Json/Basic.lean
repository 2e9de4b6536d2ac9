/-!
# JSON values

A JSON value keeps the members of an object in the order they are written, repeated keys included.
A whole number without sign, fraction and exponent is kept as a number, and every other numeral as
it is written.
-/

namespace LinkExpr

/-- A JSON value. -/
inductive Json
  | null
  | bool (b : Bool)
  /-- A whole number. -/
  | natural (n : Nat)
  /-- Any other number, as it is written. -/
  | number (numeral : String)
  | string (text : String)
  | array (items : List Json)
  | object (members : List (String × Json))
  /-- A value that can be passed over but not read, since a text in it holds half of a surrogate
  pair. -/
  | unreadable
deriving Repr

namespace Json

/-- A text, or null if there is none. -/
def ofText? : Option String → Json
  | some text => .string text
  | none => .null

/-- The value of a member, the first of its key. -/
def member? (key : String) : Json → Option Json
  | .object members => (members.find? fun m => m.1 = key).map Prod.snd
  | _ => none

end Json

end LinkExpr
