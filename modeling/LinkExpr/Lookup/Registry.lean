import LinkExpr.Lookup.Scope
import LinkExpr.Text.Quoted

/-!
# Namespaces

A resolver gives the keys of one namespace a value in a scope. The registry says which namespace
codes exist and which resolver serves each of them.
-/

namespace LinkExpr

/-- How the keys of a namespace get their values in a scope. -/
abbrev Resolver := (key : String) → Scope → Option String

/-- Looks keys up among the values that a scope stores under a fixed code. -/
def Resolver.scopeLookup (code : String) : Resolver :=
  fun key scope => scope.get? code key

/-- The known namespace codes with their resolvers. -/
structure Registry where
  resolvers : Table Resolver

namespace Registry

/-- The registry without namespaces. -/
def empty : Registry := ⟨.empty⟩

/-- Makes a resolver serve a namespace, in place of any earlier one. -/
def register (r : Registry) (code : String) (resolver : Resolver) : Registry :=
  ⟨r.resolvers.insert code resolver⟩

/-- Makes a namespace a lookup of the values stored under its own code. -/
def registerPlain (r : Registry) (code : String) : Registry :=
  r.register code (.scopeLookup code)

/-- The registry in which every given code is a plain lookup. -/
def ofPlain (codes : List String) : Registry :=
  codes.foldl registerPlain empty

/-- The resolver that serves a namespace. -/
def resolver? (r : Registry) (code : String) : Option Resolver :=
  r.resolvers.get? code

/-- Whether a namespace is known. -/
def contains (r : Registry) (code : String) : Bool :=
  r.resolvers.contains code

/-- The known codes in the order of their registration. -/
def codes (r : Registry) : List String :=
  r.resolvers.keys

/-- A listing of the known codes for logs. -/
def describe (r : Registry) : String :=
  "NamespaceRegistry \x7b namespaces: [" ++
    ", ".intercalate (r.codes.map Text.quoteEntry) ++ "] \x7d"

@[simp] theorem resolver?_register (r : Registry) (code other : String) (resolver : Resolver) :
    (r.register code resolver).resolver? other =
      if code = other then some resolver else r.resolver? other :=
  Table.get?_insert ..

theorem codes_register (r : Registry) (code : String) (resolver : Resolver) :
    (r.register code resolver).codes = if code ∈ r.codes then r.codes else r.codes ++ [code] :=
  Table.keys_insert ..

end Registry

end LinkExpr
