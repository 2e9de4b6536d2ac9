import LinkExpr.Lookup.Registry
import LinkExpr.Placeholder

/-!
# Resolution contexts

A context is a registry together with scopes in order of precedence. A name is looked up by the
resolver of its namespace in one scope after the other; the first value found counts.

## Main results

* `lookup_pushScope`: a further scope only matters for names that were not found.
-/

namespace LinkExpr

/-- The outcome of looking up a name. -/
inductive Resolution
  /-- Some scope gives the name a value. -/
  | found (value : String)
  /-- The namespace is known, but no scope gives the name a value. -/
  | notFound
  /-- The namespace is not known. -/
  | unknownNamespace
deriving DecidableEq, Repr

/-- The value, if one was found. -/
def Resolution.value? : Resolution → Option String
  | .found value => some value
  | .notFound | .unknownNamespace => none

/-- What names are looked up against. -/
structure Context where
  registry : Registry
  scopes : List Scope

namespace Context

/-- Adds a scope of the lowest precedence. -/
def pushScope (c : Context) (scope : Scope) : Context :=
  { c with scopes := c.scopes ++ [scope] }

/-- Makes a resolver serve a namespace. -/
def register (c : Context) (code : String) (resolver : Resolver) : Context :=
  { c with registry := c.registry.register code resolver }

/-- Looks up a name. -/
def lookup (c : Context) (name : Name) : Resolution :=
  match c.registry.resolver? name.code with
  | none => .unknownNamespace
  | some resolver =>
      match c.scopes.findSome? (resolver name.key) with
      | some value => .found value
      | none => .notFound

/-- A further scope only matters for names that were not found. -/
theorem lookup_pushScope (c : Context) (scope : Scope) {name : Name}
    (h : c.lookup name ≠ .notFound) : (c.pushScope scope).lookup name = c.lookup name := by
  cases hr : c.registry.resolver? name.code with
  | none => simp [lookup, pushScope, hr]
  | some resolver =>
      cases hs : c.scopes.findSome? (resolver name.key) with
      | none => simp [lookup, hr, hs] at h
      | some value => simp [lookup, pushScope, hr, hs, List.findSome?_append]

end Context

/-- A change of a context. -/
inductive Change
  /-- Makes a namespace a lookup of the values stored under its own code. -/
  | registerPlain (code : String)
  /-- Makes a resolver serve a namespace. -/
  | register (code : String) (resolver : Resolver)
  /-- Adds a scope without values. -/
  | pushScope (name : String)
  /-- Sets a value in the scope at an index. -/
  | insert (scope : Nat) (code key value : String)

namespace Change

/-- What a change answers: the value an insertion replaces, if there was one. -/
def replaced? (c : Context) : Change → Option String
  | .insert scope code key _ => c.scopes[scope]?.bind fun s => s.get? code key
  | _ => none

/-- The context after a change; an insertion into a scope that does not exist changes nothing. -/
def apply (c : Context) : Change → Context
  | .registerPlain code => c.register code (.scopeLookup code)
  | .register code resolver => c.register code resolver
  | .pushScope name => c.pushScope (.empty name)
  | .insert scope code key value =>
      { c with scopes := c.scopes.modify scope fun s => s.insert code key value }

/-- The context after several changes. -/
def run (c : Context) (changes : List Change) : Context :=
  changes.foldl apply c

end Change

end LinkExpr
