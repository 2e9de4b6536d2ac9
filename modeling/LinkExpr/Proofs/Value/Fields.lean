import LinkExpr.Value.Linked
import Mathlib.Data.List.Basic

/-!
# At Most One Field

A linked value is stored in two fields, the literal and the expression, of which at most one is to
be present. The type `LinkedValue` has no room for both. Here the two fields are kept apart, as they
are stored: a document may have both of them, every conversion asks for them in its own order, and
an assignment is checked before anything is stored.

An edit leaves both fields as they were, or it leaves a single field (`edit_cases`). From this
follows what holds throughout a run, whatever the types, texts and contexts of its edits are. So the
fields are at every point those of a linked value, and an edit does to them what it does to that
value.

An expression that was assigned is shown unchanged until an edit changes the fields. Which edits do
not is known from the expression alone (`KeepsLink`): a rejected assignment, the same expression
again, and making a link of what is a link already.

## Main results

* `edit_cases`: what an edit can do to the fields.
* `oneOf_iff`: at most one field is present exactly if the fields are those of a linked value.
* `edit_fields`, `run_fields`: edits of the fields are edits of the linked value.
* `OneOf.edit`, `OneOf.run`: every edit and every run keeps at most one field.
* `isUnset_run`: a value that is set stays set.
* `unchanged_link_iff`: the edits that leave a link as it is.
* `at_most_one_field_throughout`: all of this for every run from every origin.
-/

namespace LinkExpr

/-- The two fields of a linked value. -/
structure Fields where
  /-- The literal, if it is present. -/
  value? : Option String
  /-- The expression, if it is present. -/
  expression? : Option String
deriving DecidableEq, Repr

namespace Fields

/-! ### Making and reading the fields -/

/-- Neither field is present. -/
def unset : Fields := ⟨none, none⟩

/-- Only the literal is present. -/
def literal (value : String) : Fields := ⟨some value, none⟩

/-- Only the expression is present. -/
def link (expression : String) : Fields := ⟨none, some expression⟩

/-- Reads a document, which may have both fields; then the literal is dropped. -/
def ofDocument : Option String → Option String → Fields
  | some _, some expression => link expression
  | some value, none => literal value
  | none, some expression => link expression
  | none, none => unset

/-- Neither field is present. -/
def isUnset (s : Fields) : Bool := s.value?.isNone && s.expression?.isNone

/-- Whether the expression is present. -/
def isLink (s : Fields) : Bool := s.expression?.isSome

/-- What is shown in an editor: the expression, or else the literal. -/
def stored? (s : Fields) : Option String := s.expression?.or s.value?

/-- What the fields stand for; the expression is expanded. -/
def effective? (s : Fields) (r : Reader) : Option String :=
  match s.expression? with
  | some expression => some (r.expand expression).text
  | none => s.value?

/-! ### Edits -/

/-- Makes an expression of the literal; a secret is not copied. -/
def toLink (s : Fields) (type : ValueType) : Fields :=
  if s.isLink then s
  else if type.isSecret then link ""
  else link (s.value?.getD "")

/-- Makes a literal of what the expression stands for; a secret is not expanded. -/
def toLiteral (s : Fields) (r : Reader) (type : ValueType) : Fields :=
  if !s.isLink then s
  else if type.isSecret then literal ""
  else literal ((s.effective? r).getD "")

/-- Assigns a literal if the type accepts it: the answer, and the fields afterwards. -/
def assign (s : Fields) (type : ValueType) (value : String) : Except Rejection Unit × Fields :=
  match type.validate value with
  | .error rejection => (.error rejection, s)
  | .ok () => (.ok (), literal value)

/-- The answer to an edit, and the fields afterwards. -/
def edit (s : Fields) : Edit → Except Rejection Unit × Fields
  | .assignValue type value => s.assign type value
  | .assignLink expression | .makeLink expression => (.ok (), link expression)
  | .makeLinkFromLiteral type => (.ok (), s.toLink type)
  | .makePlain type reader => (.ok (), s.toLiteral reader type)

/-- The fields after several edits. -/
def run (s : Fields) : List Edit → Fields
  | [] => s
  | edit :: edits => run (s.edit edit).2 edits

theorem run_append (s : Fields) (before after : List Edit) :
    s.run (before ++ after) = (s.run before).run after := by
  induction before generalizing s with
  | nil => rfl
  | cons edit before ih => exact ih (s.edit edit).2

variable {s : Fields} {type : ValueType} {value expression : String} {rejection : Rejection}

/-- A rejected literal is not stored. -/
theorem edit_assignValue_of_error (h : type.validate value = .error rejection) :
    s.edit (.assignValue type value) = (.error rejection, s) := by
  rw [edit, assign, h]

/-- An accepted literal is stored alone. -/
theorem edit_assignValue_of_ok (h : type.validate value = .ok ()) :
    s.edit (.assignValue type value) = (.ok (), literal value) := by
  rw [edit, assign, h]

/-- Making a link leaves a link as it is. -/
theorem toLink_cases (s : Fields) (type : ValueType) :
    s.toLink type = s ∨ ∃ expression, s.toLink type = link expression := by
  rw [toLink, ← apply_ite link]
  by_cases hlink : s.isLink = true
  · exact .inl (if_pos hlink)
  · exact .inr ⟨_, if_neg hlink⟩

/-- Making a literal leaves what is not a link as it is. -/
theorem toLiteral_cases (s : Fields) (r : Reader) (type : ValueType) :
    s.toLiteral r type = s ∨ ∃ value, s.toLiteral r type = literal value := by
  rw [toLiteral, ← apply_ite literal]
  by_cases hlink : (!s.isLink) = true
  · exact .inl (if_pos hlink)
  · exact .inr ⟨_, if_neg hlink⟩

/-- **What an edit can do**: it leaves the fields as they were, or it leaves one of them. -/
theorem edit_cases (s : Fields) (edit : Edit) :
    (s.edit edit).2 = s ∨ (∃ value, (s.edit edit).2 = literal value) ∨
      ∃ expression, (s.edit edit).2 = link expression := by
  cases edit with
  | assignValue type value =>
      cases hvalid : type.validate value with
      | error rejection => exact .inl (by rw [edit_assignValue_of_error hvalid])
      | ok u => exact .inr (.inl ⟨value, by rw [edit_assignValue_of_ok hvalid]⟩)
  | assignLink expression | makeLink expression => exact .inr (.inr ⟨expression, rfl⟩)
  | makeLinkFromLiteral type =>
      rcases s.toLink_cases type with hsame | hlink
      · exact .inl hsame
      · exact .inr (.inr hlink)
  | makePlain type reader =>
      rcases s.toLiteral_cases reader type with hsame | hliteral
      · exact .inl hsame
      · exact .inr (.inl hliteral)

/-! ### What holds throughout a run -/

/-- At most one field is present. -/
def OneOf (s : Fields) : Prop := s.value? = none ∨ s.expression? = none

/-- An edit keeps at most one field. -/
theorem OneOf.edit (h : s.OneOf) (edit : Edit) : (s.edit edit).2.OneOf := by
  rcases s.edit_cases edit with hsame | ⟨value, hliteral⟩ | ⟨expression, hlink⟩
  · rwa [hsame]
  · exact hliteral ▸ .inr rfl
  · exact hlink ▸ .inl rfl

/-- **At most one field** is present throughout a run. -/
theorem OneOf.run (h : s.OneOf) (edits : List Edit) : (s.run edits).OneOf := by
  induction edits generalizing s with
  | nil => exact h
  | cons edit edits ih => exact ih (h.edit edit)

/-- No edit unsets a value. -/
theorem isUnset_edit (h : s.isUnset = false) (edit : Edit) : (s.edit edit).2.isUnset = false := by
  rcases s.edit_cases edit with hsame | ⟨value, hliteral⟩ | ⟨expression, hlink⟩
  · rwa [hsame]
  · exact hliteral ▸ rfl
  · exact hlink ▸ rfl

/-- **A value that is set** stays set. -/
theorem isUnset_run (h : s.isUnset = false) (edits : List Edit) :
    (s.run edits).isUnset = false := by
  induction edits generalizing s with
  | nil => exact h
  | cons edit edits ih => exact ih (isUnset_edit h edit)

/-- None of the edits changes the fields. -/
def Unchanged : Fields → List Edit → Prop
  | _, [] => True
  | s, edit :: edits => (s.edit edit).2 = s ∧ Unchanged (s.edit edit).2 edits

/-- Without a change the fields are what they were. -/
theorem Unchanged.run_eq {edits : List Edit} (h : s.Unchanged edits) : s.run edits = s := by
  induction edits with
  | nil => rfl
  | cons edit edits ih =>
      obtain ⟨hsame, hrest⟩ := h
      rw [hsame] at hrest
      rw [run, hsame, ih hrest]

end Fields

/-! ### Edits of a link -/

/-- The edit does not change a link with this expression. -/
def Edit.KeepsLink (expression : String) : Edit → Prop
  | .assignValue type value => ∃ rejection, type.validate value = .error rejection
  | .assignLink other | .makeLink other => other = expression
  | .makeLinkFromLiteral _ => True
  | .makePlain _ _ => False

namespace Fields

variable {s : Fields} {expression : String} {edit : Edit}

theorem link_injective : Function.Injective link := fun _ _ h =>
  Option.some.inj (congrArg expression? h)

theorem literal_ne_link (value expression : String) : literal value ≠ link expression := nofun

/-- A link is left as it is by exactly the edits that keep it. -/
theorem edit_link_eq_iff :
    ((link expression).edit edit).2 = link expression ↔ edit.KeepsLink expression := by
  cases edit with
  | assignValue type value =>
      cases hvalid : type.validate value with
      | error rejection =>
          rw [edit_assignValue_of_error hvalid]
          exact iff_of_true rfl ⟨rejection, hvalid⟩
      | ok u =>
          rw [edit_assignValue_of_ok hvalid]
          refine iff_of_false (literal_ne_link value expression) ?_
          rintro ⟨rejection, hrejected⟩
          cases hvalid.symm.trans hrejected
  | assignLink other | makeLink other => exact link_injective.eq_iff
  | makeLinkFromLiteral type => exact iff_of_true rfl trivial
  | makePlain type reader =>
      refine iff_of_false ?_ id
      rw [Fields.edit, toLiteral, ← apply_ite literal]
      exact literal_ne_link _ expression

/-- **The edits that leave a link as it is**, one after the other. -/
theorem unchanged_link_iff {edits : List Edit} :
    (link expression).Unchanged edits ↔ ∀ edit ∈ edits, edit.KeepsLink expression := by
  induction edits with
  | nil => exact iff_of_true trivial fun _ h => absurd h List.not_mem_nil
  | cons edit edits ih =>
      rw [List.forall_mem_cons, Unchanged, edit_link_eq_iff, ← ih]
      refine and_congr_right fun hkeeps => ?_
      rw [edit_link_eq_iff.mpr hkeeps]

end Fields

/-! ### The fields of a linked value -/

/-- The fields that a linked value is stored in. -/
def LinkedValue.fields (v : LinkedValue) : Fields := ⟨v.value?, v.expression?⟩

namespace Fields

/-- **At most one field** is present exactly if the fields are those of a linked value. -/
theorem oneOf_iff {s : Fields} : s.OneOf ↔ ∃ v : LinkedValue, v.fields = s := by
  constructor
  · obtain ⟨value?, expression?⟩ := s
    rintro (h | h)
    · obtain rfl : value? = none := h
      cases expression? with
      | none => exact ⟨.unset, rfl⟩
      | some expression => exact ⟨.link expression, rfl⟩
    · obtain rfl : expression? = none := h
      cases value? with
      | none => exact ⟨.unset, rfl⟩
      | some value => exact ⟨.literal value, rfl⟩
  · rintro ⟨v, rfl⟩
    cases v with
    | unset | literal => exact .inr rfl
    | link => exact .inl rfl

/-- A document is read into the fields of the linked value that it is read as. -/
theorem ofDocument_eq (value? expression? : Option String) :
    ofDocument value? expression? = (LinkedValue.ofFields value? expression?).fields := by
  cases value? <;> cases expression? <;> rfl

/-- The fields show what the linked value shows. -/
theorem stored?_fields (v : LinkedValue) : v.fields.stored? = v.stored? := by
  cases v <;> rfl

/-- The fields of an unset value, and no others, are both absent. -/
theorem isUnset_fields (v : LinkedValue) : v.fields.isUnset = v.isUnset := by
  cases v <;> rfl

/-- Making a link of the fields makes a link of the linked value. -/
theorem toLink_fields (v : LinkedValue) (type : ValueType) :
    v.fields.toLink type = (v.toLink type).fields := by
  cases v with
  | unset => exact ite_self (link "")
  | literal value =>
      rw [LinkedValue.toLink, apply_ite LinkedValue.fields]
      rfl
  | link expression => rfl

/-- Making a literal of the fields makes a literal of the linked value. -/
theorem toLiteral_fields (v : LinkedValue) (r : Reader) (type : ValueType) :
    v.fields.toLiteral r type = (r.toLiteral v type).fields := by
  cases v with
  | unset | literal value => rfl
  | link expression =>
      rw [Reader.toLiteral, apply_ite LinkedValue.fields]
      rfl

/-- **An edit of the fields** is the edit of the linked value, with the same answer. -/
theorem edit_fields (v : LinkedValue) (edit : Edit) :
    v.fields.edit edit = ((Edit.attempt v edit).map fun _ => (), (Edit.apply v edit).fields) := by
  cases edit with
  | assignValue type value =>
      rw [Edit.apply, Edit.attempt, LinkedValue.assign]
      cases hvalid : type.validate value with
      | error rejection => exact edit_assignValue_of_error hvalid
      | ok u => exact edit_assignValue_of_ok hvalid
  | assignLink expression | makeLink expression => rfl
  | makeLinkFromLiteral type => exact congrArg (Prod.mk (Except.ok ())) (toLink_fields v type)
  | makePlain type reader =>
      exact congrArg (Prod.mk (Except.ok ())) (toLiteral_fields v reader type)

/-- **A run over the fields** is the run over the linked value. -/
theorem run_fields (v : LinkedValue) (edits : List Edit) :
    v.fields.run edits = (Edit.run v edits).fields := by
  induction edits generalizing v with
  | nil => rfl
  | cons edit edits ih =>
      rw [run, edit_fields]
      exact ih (Edit.apply v edit)

/-! ### Every run -/

/-- Where a linked value comes from: a constructor, or a stored document, in which both fields may
be present. -/
inductive Origin
  | unset
  | literal (value : String)
  | link (expression : String)
  | document (value? expression? : Option String)

namespace Origin

/-- The fields at the beginning. -/
def fields : Origin → Fields
  | unset => .unset
  | literal value => .literal value
  | link expression => .link expression
  | document value? expression? => ofDocument value? expression?

/-- The linked value at the beginning. -/
def linked : Origin → LinkedValue
  | unset => .unset
  | literal value => .literal value
  | link expression => .link expression
  | document value? expression? => .ofFields value? expression?

theorem fields_eq (o : Origin) : o.fields = o.linked.fields := by
  cases o with
  | unset | literal value | link expression => rfl
  | document value? expression? => exact ofDocument_eq value? expression?

/-- Whatever the origin is, at most one field is present. -/
theorem oneOf (o : Origin) : o.fields.OneOf := oneOf_iff.mpr ⟨o.linked, o.fields_eq.symm⟩

end Origin

end Fields

open Fields in
/-- **At most one field throughout.** Let a linked value come from a constructor or a document, and
let any edits be made. The fields are those of the linked value that the same edits lead to, they
show the same, and the next edit is answered alike. At most one field is present, and a value that
is set is not unset by further edits. An assignment is rejected exactly if the type rejects the
literal; then the fields are what they were, and otherwise the literal is stored alone. An
expression that is assigned, or that the value is made a link of, is what is stored until an edit
changes the fields, and a rejected assignment, the same expression and making a link of the literal
do not change them. -/
theorem at_most_one_field_throughout (o : Origin) (edits : List Edit) :
    let s := o.fields.run edits
    (s = (Edit.run o.linked edits).fields ∧ s.stored? = (Edit.run o.linked edits).stored? ∧
      s.isUnset = (Edit.run o.linked edits).isUnset ∧
      ∀ edit, (s.edit edit).1 =
        (Edit.attempt (Edit.run o.linked edits) edit).map fun _ => ()) ∧
    s.OneOf ∧
    (s.isUnset = false → ∀ more, (o.fields.run (edits ++ more)).isUnset = false) ∧
    (∀ type value,
      (∀ rejection, (s.edit (.assignValue type value)).1 = .error rejection ↔
        type.validate value = .error rejection) ∧
      (∀ rejection, type.validate value = .error rejection →
        (s.edit (.assignValue type value)).2 = s) ∧
      ((s.edit (.assignValue type value)).1 = .ok () →
        (s.edit (.assignValue type value)).2 = ⟨some value, none⟩)) ∧
    ∀ expression, ∀ edit ∈ [Edit.assignLink expression, .makeLink expression],
      (s.edit edit).2.stored? = some expression ∧
      ∀ more, ((s.edit edit).2.Unchanged more ↔ ∀ next ∈ more, next.KeepsLink expression) ∧
        ((s.edit edit).2.Unchanged more →
          (o.fields.run (edits ++ edit :: more)).stored? = some expression) := by
  intro s
  have hfields : s = (Edit.run o.linked edits).fields := by
    rw [← run_fields, ← o.fields_eq]
  refine ⟨⟨hfields, ?_, ?_, fun edit => ?_⟩, o.oneOf.run edits, fun hset more => ?_,
    fun type value => ?_, fun expression edit hedit => ?_⟩
  · rw [hfields, stored?_fields]
  · rw [hfields, isUnset_fields]
  · rw [hfields, edit_fields]
  · rw [run_append]
    exact isUnset_run hset more
  · cases hvalid : type.validate value with
    | error rejection =>
        rw [edit_assignValue_of_error hvalid]
        exact ⟨fun _ => Iff.rfl, fun _ _ => rfl, nofun⟩
    | ok u =>
        rw [edit_assignValue_of_ok hvalid]
        exact ⟨fun _ => iff_of_false nofun nofun, nofun, fun _ => rfl⟩
  · have hlink : (s.edit edit).2 = .link expression := by
      rcases List.mem_pair.mp hedit with rfl | rfl <;> rfl
    refine ⟨by rw [hlink]; rfl, fun more => ⟨?_, fun hsame => ?_⟩⟩
    · rw [hlink, unchanged_link_iff]
    · rw [run_append, run, hsame.run_eq, hlink]
      rfl

open Fields in
/-- A document has both fields. The expression counts; it survives a port that is rejected, and is
dropped for a port that is accepted. -/
theorem link_survives_rejected_port :
    let o : Origin := .document (some "80") (some "\x7b\x7bP:PORT\x7d\x7d")
    let s := o.fields.run [.makeLinkFromLiteral .string]
    let later : List Edit := [.assignValue .serverPort "+80", .makeLinkFromLiteral .numeric]
    s.OneOf ∧ (s.run later).isUnset = false ∧
      (s.edit (.assignValue .serverPort "+80")).2 = s ∧
      (s.edit (.assignValue .serverPort "8080")).2 = ⟨some "8080", none⟩ ∧
      (s.run (.makeLink "\x7b\x7bP:ALT\x7d\x7d" :: later)).stored? =
        some "\x7b\x7bP:ALT\x7d\x7d" := by
  intro o s later
  have hrejected : ValueType.serverPort.validate "+80" = .error (.notPort "+80") := by
    decide +kernel
  have haccepted : (s.edit (.assignValue .serverPort "8080")).1 = .ok () := by decide +kernel
  obtain ⟨-, honeOf, hset, hassign, hlink⟩ :=
    at_most_one_field_throughout o [.makeLinkFromLiteral .string]
  obtain ⟨-, hlater⟩ := hlink "\x7b\x7bP:ALT\x7d\x7d" (.makeLink "\x7b\x7bP:ALT\x7d\x7d")
    (List.mem_pair.mpr (.inr rfl))
  have hkeeps : ∀ next ∈ later, next.KeepsLink "\x7b\x7bP:ALT\x7d\x7d" := by
    rw [List.forall_mem_cons, List.forall_mem_singleton]
    exact ⟨⟨_, hrejected⟩, trivial⟩
  exact ⟨honeOf, hset rfl later, (hassign _ _).2.1 _ hrejected, (hassign _ _).2.2 haccepted,
    (hlater later).2 ((hlater later).1.mpr hkeeps)⟩

end LinkExpr
