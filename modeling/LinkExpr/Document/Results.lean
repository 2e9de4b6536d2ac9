import LinkExpr.Document.Stored

/-!
# Results as JSON

How tokens and expansions are written as JSON. A token says first what kind it is.
-/

namespace LinkExpr

/-- A position as an object. -/
def Position.toJson (p : Position) : Json :=
  .object [("offset", .natural p.offset), ("line", .natural p.line), ("column", .natural p.column)]

/-- A span as its two ends. -/
def Span.toJson (s : Span) : Json :=
  .object [("start", s.start.toJson), ("end", s.stop.toJson)]

/-- A name as its two parts. -/
def Name.toJson (n : Name) : Json :=
  .object [("namespace", .string n.code), ("key", .string n.key)]

/-- A token as an object. -/
def Token.toJson : Token → Json
  | .literal text span =>
      .object [("kind", .string "literal"), ("text", .string text), ("span", span.toJson)]
  | .placeholder p =>
      .object [("kind", .string "placeholder"), ("raw", .string p.raw),
        ("namespace", .string p.name.code), ("key", .string p.name.key), ("span", p.span.toJson)]

/-- The name of a reason in results. -/
def Reason.name : Reason → String
  | notFound => "notFound"
  | unknownNamespace => "unknownNamespace"
  | depthExceeded => "depthExceeded"
  | cycle => "cycle"

/-- An unresolved placeholder as an object; `via` is null if there is none. -/
def Unresolved.toJson (u : Unresolved) : Json :=
  .object [("name", u.name.toJson), ("raw", .string u.raw), ("span", u.span.toJson),
    ("via", (u.via.map Name.toJson).getD .null), ("reason", .string u.reason.name)]

/-- An expansion as an object. -/
def Expansion.toJson (e : Expansion) : Json :=
  .object [("text", .string e.text), ("unresolved", .array (e.unresolved.map Unresolved.toJson)),
    ("errors", .array (e.errors.map StatusMessage.toJson))]

end LinkExpr
