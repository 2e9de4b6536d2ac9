import LinkExpr.Table

/-!
# Variable scopes

A scope is a named layer of variables. Its values are grouped by namespace code and then by key,
both in insertion order.

## Main results

* `get?_insert`: an inserted value is seen under its code and key and under no other.
-/

namespace LinkExpr

/-- A named layer of variables. -/
structure Scope where
  name : String
  values : Table (Table String)
deriving DecidableEq, Repr

namespace Scope

/-- The scope of a name without values. -/
def empty (name : String) : Scope := ⟨name, .empty⟩

/-- The values stored under a namespace code. -/
def group (s : Scope) (code : String) : Table String := (s.values.get? code).getD .empty

/-- The value of a key under a namespace code. -/
def get? (s : Scope) (code key : String) : Option String := (s.group code).get? key

/-- The keys that have a value under a namespace code, in insertion order. -/
def keys (s : Scope) (code : String) : List String := (s.group code).keys

/-- Sets the value of a key under a namespace code. -/
def insert (s : Scope) (code key value : String) : Scope :=
  { s with values := s.values.insert code ((s.group code).insert key value) }

/-- Inserts several values one after the other. -/
def insertAll (s : Scope) (values : List (String × String × String)) : Scope :=
  values.foldl (fun s v => s.insert v.1 v.2.1 v.2.2) s

theorem group_insert (s : Scope) (code key value other : String) :
    (s.insert code key value).group other =
      if code = other then (s.group code).insert key value else s.group other := by
  by_cases h : code = other <;> simp [insert, group, h]

/-- An inserted value is seen under its code and key and under no other. -/
@[simp] theorem get?_insert (s : Scope) (code key value code' key' : String) :
    (s.insert code key value).get? code' key' =
      if code = code' ∧ key = key' then some value else s.get? code' key' := by
  by_cases h : code = code'
  · subst h
    by_cases hk : key = key' <;> simp [get?, group_insert, hk]
  · simp [get?, group_insert, h]

end Scope

end LinkExpr
