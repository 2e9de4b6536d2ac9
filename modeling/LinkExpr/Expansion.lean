import LinkExpr.Scan
import LinkExpr.Lookup.Context

/-!
# Expansion

Expanding a text replaces its placeholders by their values. It never fails: a placeholder that
cannot be replaced stays as it is written and is listed as unresolved, with the reason.

At a depth of one, values are inserted as they are. At a greater depth the values that are links are
expanded in turn, each level one step closer to the limit. The names whose values are being expanded
are active; a placeholder that refers to an active name would never end and is left as it is.

## Main results

* `Expansion.append_assoc` and its unit laws: what the tokens of a text contribute is put together
  in order.
-/

namespace LinkExpr

/-- Why a placeholder was left as it is written. -/
inductive Reason
  /-- No scope defines the key. -/
  | notFound
  /-- The namespace is not known. -/
  | unknownNamespace
  /-- The value is a link, and the limit of the depth is reached. -/
  | depthExceeded
  /-- The placeholder stands in a value that it is needed for. -/
  | cycle
deriving DecidableEq, Repr

/-- The wording of a reason. -/
def Reason.message : Reason → String
  | notFound => "is not defined"
  | unknownNamespace => "uses an unknown namespace"
  | depthExceeded => "would need expansion beyond the depth limit"
  | cycle => "refers back to itself"

/-- A placeholder that was left as it is written. Its span lies in the value of `via`, or in the
expanded text itself if there is none. -/
structure Unresolved where
  name : Name
  raw : String
  span : Span
  via : Option Name
  reason : Reason
deriving DecidableEq

namespace Unresolved

/-- A placeholder that was left as it is written for a reason. -/
def ofPlaceholder (p : Placeholder) (via : Option Name) (reason : Reason) : Unresolved :=
  ⟨p.name, p.raw, p.span, via, reason⟩

/-- What is said about the reason. -/
def remarks (u : Unresolved) : List Remark :=
  let origin := match u.via with
    | some name => [.note ("found in the value of `" ++ name.toString ++ "`")]
    | none => []
  origin ++ match u.reason with
    | .notFound => []
    | .unknownNamespace => [.note ("namespace `" ++ u.name.code ++ "` is not registered")]
    | .depthExceeded =>
        [.help "raise the expansion depth or simplify the chain of linked values"]
    | .cycle => [.help "break the cycle by giving one of the values a literal"]

/-- A placeholder inside a value has no place in the expanded text. -/
instance : Reportable Unresolved where
  message u := "placeholder `" ++ u.raw ++ "` " ++ u.reason.message
  remarks := remarks
  excerpt? u source := if u.via.isNone then some (.ofSpan source u.span) else none

end Unresolved

/-- The outcome of an expansion. -/
structure Expansion where
  /-- The text with all values in place. -/
  text : String
  /-- The placeholders that were left as they are written. -/
  unresolved : List Unresolved
  /-- What is malformed in the expanded text and in the values expanded in turn. -/
  errors : List StatusMessage
deriving DecidableEq

namespace Expansion

/-- The expansion of the empty text. -/
def empty : Expansion := ⟨"", [], []⟩

/-- The expansion that only adds text. -/
def ofText (text : String) : Expansion := ⟨text, [], []⟩

/-- The expansion that keeps a placeholder as it is written. -/
def ofUnresolved (u : Unresolved) : Expansion := ⟨u.raw, [u], []⟩

/-- One expansion after the other. -/
protected def append (a b : Expansion) : Expansion :=
  ⟨a.text ++ b.text, a.unresolved ++ b.unresolved, a.errors ++ b.errors⟩

instance : Append Expansion := ⟨Expansion.append⟩

/-- Several expansions, one after the other. -/
def concat (es : List Expansion) : Expansion := es.foldr (· ++ ·) empty

/-- Nothing was left over. -/
def isFullyResolved (e : Expansion) : Bool := e.unresolved.isEmpty && e.errors.isEmpty

/-- Everything that was left over, the unresolved placeholders first. -/
def statusMessages (e : Expansion) : List StatusMessage :=
  e.unresolved.map StatusMessage.of ++ e.errors

@[ext] theorem ext {a b : Expansion} (ht : a.text = b.text) (hu : a.unresolved = b.unresolved)
    (he : a.errors = b.errors) : a = b := by
  cases a; cases b; simp_all

@[simp] theorem text_append (a b : Expansion) : (a ++ b).text = a.text ++ b.text := rfl

@[simp] theorem unresolved_append (a b : Expansion) :
    (a ++ b).unresolved = a.unresolved ++ b.unresolved := rfl

@[simp] theorem errors_append (a b : Expansion) : (a ++ b).errors = a.errors ++ b.errors := rfl

@[simp] theorem empty_append (a : Expansion) : empty ++ a = a := by
  ext1 <;> simp [empty]

@[simp] theorem append_empty (a : Expansion) : a ++ empty = a := by
  ext1 <;> simp [empty]

theorem append_assoc (a b c : Expansion) : a ++ b ++ c = a ++ (b ++ c) := by
  ext1 <;> simp [String.append_assoc]

@[simp] theorem concat_nil : concat [] = empty := rfl

@[simp] theorem concat_cons (e : Expansion) (es : List Expansion) :
    concat (e :: es) = e ++ concat es := rfl

end Expansion

/-- What a token contributes, given what to do with a value that is a link. -/
def expandToken (lookup : Name → Resolution) (active : List Name)
    (onLink : Placeholder → String → Expansion) : Token → Expansion
  | .literal text _ => .ofText text
  | .placeholder p =>
      let unresolved := fun reason => .ofUnresolved (.ofPlaceholder p active.head? reason)
      if p.name ∈ active then unresolved .cycle
      else match lookup p.name with
        | .found value => if isLink value then onLink p value else .ofText value
        | .notFound => unresolved .notFound
        | .unknownNamespace => unresolved .unknownNamespace

/-- Expands the placeholders of a text, given what to do with a value that is a link. The innermost
active name, the first of the list, is the one whose value the text is. -/
def expandLevel (lookup : Name → Resolution) (active : List Name)
    (onLink : Placeholder → String → Expansion) (source : String) : Expansion :=
  let s := scan source
  ⟨"", [], s.malformed.map StatusMessage.of⟩ ++
    .concat (s.tokens.map (expandToken lookup active onLink))

/-- Expands a text when values may be expanded for a number of further levels. -/
def expandLevels (lookup : Name → Resolution) : (levels : Nat) → (active : List Name) →
    (source : String) → Expansion
  | 0, active => expandLevel lookup active fun p _ =>
      .ofUnresolved (.ofPlaceholder p active.head? .depthExceeded)
  | levels + 1, active => expandLevel lookup active fun p value =>
      expandLevels lookup levels (p.name :: active) value

/-- How an expansion is limited. -/
structure ExpansionOptions where
  /-- How many levels of placeholders are expanded. -/
  maxDepth : UInt64
deriving DecidableEq, Repr

/-- The greatest depth of an expansion, whatever the options ask for. -/
def maxExpansionDepth : Nat := 64

/-- Without options, values are inserted as they are. -/
instance : Inhabited ExpansionOptions := ⟨⟨1⟩⟩

namespace ExpansionOptions

/-- The number of levels that are expanded. -/
def depth (options : ExpansionOptions) : Nat := min options.maxDepth.toNat maxExpansionDepth

end ExpansionOptions

/-- Expands a text to a depth. -/
def expandToDepth (lookup : Name → Resolution) (depth : Nat) (source : String) : Expansion :=
  if depth ≤ 1 then expandLevel lookup [] (fun _ value => .ofText value) source
  else expandLevels lookup (depth - 1) [] source

/-- Expands a text in a context. -/
def Context.expand (c : Context) (source : String) (options : ExpansionOptions) : Expansion :=
  expandToDepth c.lookup options.depth source

end LinkExpr
