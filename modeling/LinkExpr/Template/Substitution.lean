import LinkExpr.Scan
import LinkExpr.Template.Variable

/-!
# Template substitution

The placeholders of a template refer to variables by their key, whatever their namespace, unless
substitution is restricted to one namespace. A placeholder of a variable without a value stays as it
is written and is reported.
-/

namespace LinkExpr.Template

/-- A placeholder whose variable has no value. -/
structure MissingVariable where
  id : String
  span : Span
deriving DecidableEq

instance : Reportable MissingVariable where
  message m := "template variable `" ++ m.id ++ "` has no value"
  remarks m := [.help ("enter a value for `" ++ m.id ++ "` or give the variable a default")]
  excerpt? m source := some (.ofSpan source m.span)

/-- Which placeholders are substituted. -/
structure Options where
  /-- Only the placeholders of this namespace, if one is given. -/
  code : Option String
deriving DecidableEq, Repr

/-- Whether a placeholder is substituted. -/
def Options.appliesTo (o : Options) (p : Placeholder) : Bool :=
  match o.code with
  | none => true
  | some code => code = p.name.code

/-- A text after substitution, with what there is to report. -/
structure Substitution where
  output : String
  status : List StatusMessage
deriving DecidableEq, Repr

/-- What a token becomes. -/
def substituteToken (values : Values) (o : Options) : Token → Substitution
  | .literal text _ => ⟨text, []⟩
  | .placeholder p =>
      if o.appliesTo p then
        match values.get? p.name.key with
        | some value => ⟨value, []⟩
        | none => ⟨p.raw, [.of (⟨p.name.key, p.span⟩ : MissingVariable)]⟩
      else ⟨p.raw, []⟩

/-- Substitutes the variables of a text. What is malformed is reported first, then every placeholder
without a value. -/
def substitute (values : Values) (o : Options) (source : String) : Substitution :=
  let s := scan source
  let parts := s.tokens.map (substituteToken values o)
  { output := String.join (parts.map Substitution.output)
    status := s.malformed.map StatusMessage.of ++ parts.flatMap Substitution.status }

/-- Substitutes the variables of a text and adds to what was reported before. -/
def substituteInto (values : Values) (o : Options) (source : String)
    (status : List StatusMessage) : Substitution :=
  let s := substitute values o source
  { s with status := status ++ s.status }

end LinkExpr.Template
