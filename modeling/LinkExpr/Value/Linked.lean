import LinkExpr.Expansion
import LinkExpr.Value.ValueType

/-!
# Linked values

A linked value is a configuration value that is unset, a literal or a link. Only that form is
stored; what the value stands for is computed from it in a context whenever it is needed. A value
of a secret type is never expanded where the result could be seen or stored.
-/

namespace LinkExpr

/-- A configuration value. -/
inductive LinkedValue
  /-- Neither a literal nor a link; a default applies. -/
  | unset
  | literal (value : String)
  | link (expression : String)
deriving DecidableEq, Repr

namespace LinkedValue

/-- The shape of a stored linked value, in which both fields may be present: the expression
counts. -/
def ofFields (value? expression? : Option String) : LinkedValue :=
  match value?, expression? with
  | _, some expression => .link expression
  | some value, none => .literal value
  | none, none => .unset

/-- The literal, if there is one. -/
def value? : LinkedValue → Option String
  | literal value => some value
  | unset | link _ => none

/-- The expression, if the value is a link. -/
def expression? : LinkedValue → Option String
  | link expression => some expression
  | unset | literal _ => none

/-- Neither a literal nor a link. -/
def isUnset : LinkedValue → Bool
  | unset => true
  | literal _ | link _ => false

/-- Whether the value is a link. -/
def isLink : LinkedValue → Bool
  | link _ => true
  | unset | literal _ => false

/-- What is shown in an editor: the expression or the literal as it is stored. -/
def stored? : LinkedValue → Option String
  | unset => none
  | literal text | link text => some text

/-- What is shown instead of a secret literal. -/
def mask : String := "********"

/-- Makes the value a link that begins as the literal text; a secret is not copied. -/
def toLink (v : LinkedValue) (type : ValueType) : LinkedValue :=
  match v with
  | link _ => v
  | literal value => if type.isSecret then .link "" else .link value
  | unset => .link ""

/-- Replaces the value by a literal if its type accepts it. -/
def assign (_v : LinkedValue) (type : ValueType) (value : String) :
    Except Rejection LinkedValue :=
  (type.validate value).map fun _ => .literal value

end LinkedValue

/-- How linked values are read: in a context, to a depth. -/
structure Reader where
  context : Context
  options : ExpansionOptions

namespace Reader

/-- The expansion of an expression. -/
def expand (r : Reader) (expression : String) : Expansion :=
  r.context.expand expression r.options

/-- What a value stands for; an unset value stands for nothing. -/
def effective? (r : Reader) : LinkedValue → Option String
  | .unset => none
  | .literal value => some value
  | .link expression => some (r.expand expression).text

/-- What a value stands for, or nothing at all. -/
def preview (r : Reader) (v : LinkedValue) : String := (r.effective? v).getD ""

/-- What is shown of a value. Of a secret value the literal is masked, and a link shows its
expression instead of what it stands for. -/
def display (r : Reader) (v : LinkedValue) (type : ValueType) : String :=
  if type.isSecret then
    match v with
    | .link expression => expression
    | .literal value => if value = "" then "" else LinkedValue.mask
    | .unset => ""
  else r.preview v

/-- Makes the value a literal of what it stands for. A secret link becomes an empty literal, so that
its expansion is never stored. -/
def toLiteral (r : Reader) (v : LinkedValue) (type : ValueType) : LinkedValue :=
  match v with
  | .link _ => if type.isSecret then .literal "" else .literal (r.preview v)
  | .literal _ | .unset => v

/-- Checks a text against a type. -/
def checkText (type : ValueType) (value : String) : List StatusMessage :=
  match type.validate value with
  | .ok () => []
  | .error rejection => [.of rejection]

/-- Checks what a value stands for against its type. What is left over of an expansion is reported
instead; then the text is not checked. -/
def validate (r : Reader) (v : LinkedValue) (type : ValueType) : List StatusMessage :=
  match v with
  | .unset => []
  | .literal value => checkText type value
  | .link expression =>
      let e := r.expand expression
      if e.isFullyResolved then checkText type e.text else e.statusMessages

end Reader

/-- A change of a linked value. -/
inductive Edit
  /-- Assigns a literal; a rejected literal changes nothing. -/
  | assignValue (type : ValueType) (value : String)
  /-- Assigns an expression. -/
  | assignLink (expression : String)
  /-- Makes the value a link. -/
  | makeLink (expression : String)
  /-- Makes the value a link that begins as the literal text. -/
  | makeLinkFromLiteral (type : ValueType)
  /-- Makes the value a literal of what it stands for to a reader. -/
  | makePlain (type : ValueType) (reader : Reader)

namespace Edit

/-- The value after an edit, or why the edit is rejected. -/
def attempt (v : LinkedValue) : Edit → Except Rejection LinkedValue
  | .assignValue type value => v.assign type value
  | .assignLink expression | .makeLink expression => .ok (.link expression)
  | .makeLinkFromLiteral type => .ok (v.toLink type)
  | .makePlain type reader => .ok (reader.toLiteral v type)

/-- The value after an edit; a rejected edit leaves it as it was. -/
def apply (v : LinkedValue) (edit : Edit) : LinkedValue :=
  match attempt v edit with
  | .ok v' => v'
  | .error _ => v

/-- The value after several edits. -/
def run (v : LinkedValue) (edits : List Edit) : LinkedValue :=
  edits.foldl apply v

end Edit

end LinkExpr
