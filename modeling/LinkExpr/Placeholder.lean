import LinkExpr.Diagnostic

/-!
# Placeholders

A placeholder is written as two opening braces, a namespace code, a colon, a key and two closing
braces. The code ends at the first colon; neither part is empty. Text that looks like a placeholder
and breaks one of these rules is `Malformed`.

## Main results

* `splitAtFirst?_eq_some_iff`: the cut at the first separator.
* `readBody_eq_ok_iff`: which bodies are read as which names.
-/

namespace LinkExpr

/-- The namespace code and the key of a placeholder. -/
structure Name where
  code : String
  key : String
deriving DecidableEq, Repr

namespace Name

/-- A name is displayed as the placeholder that refers to it. -/
protected def toString (name : Name) : String :=
  "\x7b\x7b" ++ name.code ++ ":" ++ name.key ++ "\x7d\x7d"

instance : ToString Name := ⟨Name.toString⟩

/-- Names are ordered by code, then by key, each by code points. -/
instance : Ord Name where
  compare a b := (compare a.code b.code).then (compare a.key b.key)

/-- Puts a name into an ascending list of names, unless it is there already. -/
def insertInto (name : Name) : List Name → List Name
  | [] => [name]
  | first :: rest =>
      match compare name first with
      | .lt => name :: first :: rest
      | .eq => first :: rest
      | .gt => first :: insertInto name rest

/-- The distinct names of a list in ascending order. -/
def sortDistinct (names : List Name) : List Name :=
  names.foldl (fun sorted name => insertInto name sorted) []

end Name

/-- Why text that looks like a placeholder is not one. -/
inductive Fault
  /-- There is no colon between the markers. -/
  | missingSeparator
  /-- Nothing stands before the colon. -/
  | emptyNamespace
  /-- Nothing stands after the colon. -/
  | emptyKey
  /-- No closing marker follows the opening one. -/
  | unterminated
deriving DecidableEq, Repr

namespace Fault

/-- The wording of a fault. -/
def message : Fault → String
  | missingSeparator => "is missing a `:` between namespace and key"
  | emptyNamespace => "has an empty namespace"
  | emptyKey => "has an empty key"
  | unterminated => "is never closed with `\x7d\x7d`"

/-- What can be done about a fault. -/
def remark : Fault → Remark
  | missingSeparator | emptyNamespace | emptyKey =>
      .help "placeholders are written as `\x7b\x7bNAMESPACE:KEY\x7d\x7d`"
  | unterminated => .note "the text is kept as written"

end Fault

/-- Cuts a text around the first place where a character stands. -/
def splitAtFirst? (c : Char) : List Char → Option (List Char × List Char)
  | [] => none
  | a :: rest =>
      if a = c then some ([], rest)
      else (splitAtFirst? c rest).map fun (before, after) => (a :: before, after)

theorem splitAtFirst?_eq_none_iff {c : Char} {cs : List Char} :
    splitAtFirst? c cs = none ↔ c ∉ cs := by
  induction cs with
  | nil => simp [splitAtFirst?]
  | cons a rest ih =>
      by_cases h : a = c
      · simp [splitAtFirst?, h]
      · simp [splitAtFirst?, h, ih, Ne.symm h]

theorem splitAtFirst?_eq_some_iff {c : Char} {cs before after : List Char} :
    splitAtFirst? c cs = some (before, after) ↔ cs = before ++ c :: after ∧ c ∉ before := by
  induction cs generalizing before with
  | nil => simp [splitAtFirst?]
  | cons a rest ih =>
      by_cases h : a = c
      · subst h
        simp only [splitAtFirst?, if_true, Option.some.injEq, Prod.mk.injEq]
        constructor
        · rintro ⟨rfl, rfl⟩
          simp
        · rintro ⟨heq, hfree⟩
          cases before with
          | nil => simpa using heq
          | cons b before =>
              simp only [List.cons_append, List.cons.injEq] at heq
              simp [heq.1] at hfree
      · simp only [splitAtFirst?, h, if_false, Option.map_eq_some_iff, Prod.mk.injEq, Prod.exists]
        constructor
        · rintro ⟨inner, after', hsplit, rfl, rfl⟩
          obtain ⟨rfl, hfree⟩ := ih.1 hsplit
          simp [hfree, Ne.symm h]
        · rintro ⟨heq, hfree⟩
          cases before with
          | nil => simp at heq; exact absurd heq.1 h
          | cons b inner =>
              simp only [List.cons_append, List.cons.injEq] at heq
              obtain ⟨rfl, rfl⟩ := heq
              simp only [List.mem_cons, not_or] at hfree
              exact ⟨inner, after, ih.2 ⟨rfl, hfree.2⟩, rfl, rfl⟩

/-- Reads the text between the markers of a placeholder. -/
def readBody (body : List Char) : Except Fault Name :=
  match splitAtFirst? ':' body with
  | none => .error .missingSeparator
  | some ([], _) => .error .emptyNamespace
  | some (_, []) => .error .emptyKey
  | some (code, key) => .ok ⟨String.ofList code, String.ofList key⟩

theorem readBody_eq_ok_iff {body : List Char} {name : Name} :
    readBody body = .ok name ↔
      body = name.code.toList ++ ':' :: name.key.toList ∧
        name.code ≠ "" ∧ name.key ≠ "" ∧ ':' ∉ name.code.toList := by
  unfold readBody
  split
  · rename_i h
    have := splitAtFirst?_eq_none_iff.1 h
    simp only [reduceCtorEq, false_iff]
    rintro ⟨rfl, -⟩
    simp at this
  · rename_i h
    obtain ⟨rfl, -⟩ := splitAtFirst?_eq_some_iff.1 h
    simp only [reduceCtorEq, false_iff]
    rintro ⟨heq, hcode, -, hfree⟩
    match hl : name.code.toList with
    | [] => exact hcode (by rw [← String.ofList_toList (s := name.code), hl])
    | c :: cs => simp [hl] at heq hfree; exact hfree.1 heq.1
  · rename_i code hcode h
    obtain ⟨rfl, hfree⟩ := splitAtFirst?_eq_some_iff.1 h
    simp only [reduceCtorEq, false_iff]
    rintro ⟨heq, -, hkey, hfree'⟩
    have h' := splitAtFirst?_eq_some_iff.2 ⟨heq, hfree'⟩
    rw [h] at h'
    obtain ⟨-, hk⟩ := Prod.mk.inj (Option.some.inj h')
    exact hkey (by rw [← String.ofList_toList (s := name.key), ← hk])
  · rename_i code key hcode hkey h
    obtain ⟨rfl, hfree⟩ := splitAtFirst?_eq_some_iff.1 h
    constructor
    · intro heq
      obtain rfl := Except.ok.inj heq
      simp only [String.toList_ofList]
      refine ⟨trivial, ?_, ?_, hfree⟩
      · intro hc
        exact hcode (by simpa using congrArg String.toList hc)
      · intro hk
        exact hkey (by simpa using congrArg String.toList hk)
    · rintro ⟨heq, -, -, hfree'⟩
      have h' := splitAtFirst?_eq_some_iff.2 ⟨heq, hfree'⟩
      rw [h] at h'
      obtain ⟨hc, hk⟩ := Prod.mk.inj (Option.some.inj h')
      simp [hc, hk]

/-- A placeholder in a text: its name, as it is written, and where it is. -/
structure Placeholder where
  name : Name
  raw : String
  span : Span
deriving DecidableEq

/-- Text that looks like a placeholder but is not one. -/
structure Malformed where
  raw : String
  span : Span
  fault : Fault
deriving DecidableEq

instance : Reportable Malformed where
  message m := "placeholder `" ++ m.raw ++ "` " ++ m.fault.message
  remarks m := [m.fault.remark]
  excerpt? m source := some (.ofSpan source m.span)

end LinkExpr
