import LinkExpr.Document.Format
import LinkExpr.Proofs.Json.RoundTrip
import Mathlib.Data.List.Nodup

/-!
# Stored Values Round Trip

What is stored of a value is read as the value again, for every type of values that documents are
made of. A stored text may have many other forms than the one that is written: unknown fields,
fields that are null, missing or given by their place in an array, other names of a type, repeated
keys. All of them are brought to the written form by reading and writing them once, and doing so
again changes nothing.

Both facts follow from `Json.Faithful`: a value is read from the JSON value that is written for it,
and that JSON value is one that a text keeps. The lemmas on texts, names, lists, tables and records
make one faithful pair of a reader and a writer out of others, so that each type is settled by
naming its fields. A record is written without the fields that are absent. What the reader finds
under a name is what the writer had for the name (`find?_present`), and a text that is not there is
read as absent.

## Main results

* `Json.Faithful.list`, `Json.Faithful.table`, `Json.faithful_record`: lists, tables and records of
  what is read as it was written.
* `LinkedValue.faithful`, `Scope.faithful` and so on: one for each type.
* `Json.Faithful.roundTrips`: from JSON values to texts, in both layouts.
* `LinkedValue.exists_fields_of_parse?`: the field of a linked value that counts.
* `stored_values_round_trip`: all types.
-/

namespace LinkExpr

/-! ### Parts of values -/

namespace Json

/-- What is written for a value is read as the value, and is kept by a text. -/
structure Faithful {α : Type} (read : Json → Option α) (write : α → Json) : Prop where
  read_write : ∀ v, read (write v) = some v
  exact_write : ∀ v, (write v).Exact

section Parts

variable {α : Type} {read : Json → Option α} {write : α → Json}

theorem faithful_text : Faithful shape.text .string where
  read_write _ := rfl
  exact_write := .string

/-- **A name** out of several, if every value is the value of its name. -/
theorem faithful_choice {ofName? : String → Option α} {name : α → String}
    (h : ∀ a, ofName? (name a) = some a) :
    Faithful (shape.choiceOf ofName?) fun a => .string (name a) where
  read_write a := by
    simp only [Shape.choiceOf, shape, Option.bind_eq_bind, Option.bind_some, h]
    rfl
  exact_write a := .string (name a)

/-- **Lists** of values. -/
theorem Faithful.list (h : Faithful read write) :
    Faithful (shape.listOf read) fun vs => .array (vs.map write) where
  read_write _ := mapM_map_eq_some fun v _ => h.read_write v
  exact_write vs := .array fun _ hj => by
    obtain ⟨v, -, rfl⟩ := List.mem_map.mp hj
    exact h.exact_write v

/-- **Tables** of values; the order of the entries is kept. -/
theorem Faithful.table (h : Faithful read write) :
    Faithful (shape.tableOf read) (Table.toJson write) where
  read_write t := by
    have hentries : (t.entries.map fun e => (e.1, write e.2)).mapM
        (fun m => (m.1, ·) <$> read m.2) = some t.entries := by
      refine mapM_map_eq_some fun e _ => ?_
      rw [h.read_write]
      rfl
    simp only [Shape.tableOf, Table.toJson, shape, Option.bind_eq_bind, Option.bind_some,
      hentries, Table.ofList_entries]
    rfl
  exact_write t := .object fun _ hm => by
    obtain ⟨e, -, rfl⟩ := List.mem_map.mp hm
    exact h.exact_write e.2

end Parts

/-! ### Records -/

section Records

variable {names : List String} {fields : List (String × Option Json)}
  {members : List (String × Json)}

/-- All members are selected if they are there once and asked for. -/
theorem selectFields_of_nodup (hnodup : (members.map Prod.fst).Nodup)
    (hnames : ∀ m ∈ members, m.1 ∈ names) : selectFields names members = some members := by
  have honce : repeatsField names members = false := by
    rw [repeatsField, List.any_eq_false]
    intro name _
    have hcount := List.nodup_iff_count_le_one.mp hnodup name
    rw [List.count, List.countP_map] at hcount
    rw [decide_eq_true_iff, Nat.not_lt]
    exact hcount
  rw [selectFields, honce, if_neg Bool.false_ne_true]
  exact congrArg some (List.filter_eq_self.mpr fun m hm => List.contains_iff_mem.mpr (hnames m hm))

/-- The fields that are present. -/
def present (fields : List (String × Option Json)) : List (String × Json) :=
  fields.filterMap fun (name, value?) => value?.map fun value => (name, value)

theorem keys_present_sublist (fields : List (String × Option Json)) :
    ((present fields).map Prod.fst).Sublist (fields.map Prod.fst) := by
  induction fields with
  | nil => exact .slnil
  | cons f fields ih =>
      obtain ⟨name, value?⟩ := f
      cases value? with
      | none => exact ih.cons name
      | some value => exact ih.cons_cons name

/-- Under the name of a field stands what was written for it. -/
theorem find?_present (hnodup : (fields.map Prod.fst).Nodup) :
    ∀ f ∈ fields, Table.find? f.1 (present fields) = f.2 := by
  induction fields with
  | nil => exact List.forall_mem_nil _
  | cons f fields ih =>
      obtain ⟨name, value?⟩ := f
      obtain ⟨hnew, hrest⟩ := List.nodup_cons.mp hnodup
      rw [List.forall_mem_cons]
      cases value? with
      | none =>
          -- the field is not written, and no other field has its name
          refine ⟨?_, ih hrest⟩
          rw [Table.find?_eq_none_iff]
          exact fun hname => hnew ((keys_present_sublist fields).subset hname)
      | some value =>
          refine ⟨if_pos rfl, fun f hf => ?_⟩
          have hname : name ≠ f.1 := fun h => hnew (List.mem_map.mpr ⟨f, hf, h.symm⟩)
          exact (if_neg hname).trans (ih hrest f hf)

/-- A written record is read as its fields that are present. -/
theorem record_ofFields (hnodup : (fields.map Prod.fst).Nodup) :
    shape.record (fields.map Prod.fst) (ofFields fields) = some (present fields) :=
  selectFields_of_nodup ((keys_present_sublist fields).nodup hnodup) fun _ hm =>
    (keys_present_sublist fields).subset (List.mem_map_of_mem hm)

/-- **Records**: the reader finds what was written for the fields. -/
theorem faithful_record {α : Type} {build : List (String × Json) → Option α}
    (fields : α → List (String × Option Json)) (hnames : ∀ v, (fields v).map Prod.fst = names)
    (hnodup : names.Nodup)
    (hbuild : ∀ v members, (∀ f ∈ fields v, Table.find? f.1 members = f.2) →
      build members = some v)
    (hexact : ∀ v, ∀ f ∈ fields v, ∀ j ∈ f.2, j.Exact) :
    Faithful (fun j => (shape.record names j).bind build) fun v => ofFields (fields v) where
  read_write v := by
    rw [← hnames v] at hnodup ⊢
    rw [record_ofFields hnodup, Option.bind_some]
    exact hbuild v _ (find?_present hnodup)
  exact_write v := .object fun m hm => by
    obtain ⟨f, hf, hvalue⟩ := List.mem_filterMap.mp hm
    obtain ⟨j, hj, rfl⟩ := Option.map_eq_some_iff.mp hvalue
    exact hexact v f hf j hj

end Records

/-! ### Fields -/

section Fields

variable {α : Type} {read : Json → Option α} {write : α → Json} {name : String} {v usual : α}
  {members : List (String × Json)} {text? : Option String}

theorem Faithful.field (h : Faithful read write)
    (hname : Table.find? name members = some (write v)) :
    shape.field members name read = some v := by
  rw [Shape.field, hname]
  exact h.read_write v

theorem Faithful.fieldOr (h : Faithful read write)
    (hname : Table.find? name members = some (write v)) :
    Shape.fieldOr members name read usual = some v := by
  rw [Shape.fieldOr, hname]
  exact h.read_write v

/-- A text that is absent is not written, and a text that is not there is absent. -/
theorem fieldOr_optionalText (hname : Table.find? name members = text?.map .string) :
    Shape.fieldOr members name shape.optionalText none = some text? := by
  rw [Shape.fieldOr, hname]
  cases text? <;> rfl

end Fields

theorem exact_of_mem_map_string {text? : Option String} {j : Json} (h : j ∈ text?.map .string) :
    j.Exact := by
  obtain ⟨text, -, rfl⟩ := Option.map_eq_some_iff.mp h
  exact .string text

end Json

/-! ### The types of values -/

theorem ValueType.faithful : Json.Faithful (ValueType.read Json.shape) ValueType.toJson :=
  Json.faithful_choice fun type => by cases type <;> rfl

theorem LinkedValue.faithful :
    Json.Faithful (LinkedValue.read Json.shape) LinkedValue.toJson := by
  refine Json.faithful_record
    (fun v : LinkedValue =>
      [("value", v.value?.map .string), ("linkExpression", v.expression?.map .string)])
    (fun _ => rfl) (by decide) (fun v members hfind => ?_) fun v => ?_
  · simp only [List.forall_mem_cons] at hfind
    obtain ⟨hvalue, hexpression, -⟩ := hfind
    rw [Json.fieldOr_optionalText hvalue, Json.fieldOr_optionalText hexpression]
    cases v <;> rfl
  · simp [Json.exact_of_mem_map_string]

theorem ExpansionOptions.faithful :
    Json.Faithful ExpansionOptions.read ExpansionOptions.toJson := by
  refine Json.faithful_record
    (fun options : ExpansionOptions => [("maxDepth", some (.natural options.maxDepth.toNat))])
    (fun _ => rfl) (by decide) (fun options members hfind => ?_) fun options => ?_
  · rw [List.forall_mem_singleton] at hfind
    simp only [hfind, if_pos options.maxDepth.toNat_lt, UInt64.ofNat_toNat]
  · simp [Json.Exact.natural]

theorem StatusMessage.faithful :
    Json.Faithful (StatusMessage.read Json.shape) StatusMessage.toJson := by
  refine Json.faithful_record
    (fun message : StatusMessage => [("message", some (.string message.message))])
    (fun _ => rfl) (by decide) (fun message members hfind => ?_) fun message => ?_
  · rw [List.forall_mem_singleton] at hfind
    rw [Json.faithful_text.field hfind]
    rfl
  · simp [Json.Exact.string]

theorem Scope.faithful : Json.Faithful (Scope.read Json.shape) Scope.toJson := by
  have hvalues := Json.faithful_text.table.table
  refine Json.faithful_record
    (fun scope : Scope => [("name", some (.string scope.name)),
      ("values", some (scope.values.toJson (Table.toJson .string)))])
    (fun _ => rfl) (by decide) (fun scope members hfind => ?_) fun scope => ?_
  · simp only [List.forall_mem_cons] at hfind
    obtain ⟨hname, hscope, -⟩ := hfind
    rw [Json.faithful_text.field hname, hvalues.fieldOr hscope]
    rfl
  · simp [Json.Exact.string, hvalues.exact_write]

namespace Template

theorem VariableType.faithful :
    Json.Faithful (VariableType.read Json.shape) VariableType.toJson :=
  Json.faithful_choice fun type => by cases type <;> rfl

theorem Variable.faithful : Json.Faithful (Variable.read Json.shape) Variable.toJson := by
  refine Json.faithful_record
    (fun v : Variable => [("id", some (.string v.id)), ("name", v.name.map .string),
      ("description", v.description.map .string), ("type", some v.type.toJson),
      ("defaultValue", v.defaultValue.map .string)])
    (fun _ => rfl) (by decide) (fun v members hfind => ?_) fun v => ?_
  · simp only [List.forall_mem_cons] at hfind
    obtain ⟨hid, hname, hdescription, htype, hdefault, -⟩ := hfind
    rw [Json.faithful_text.field hid, Json.fieldOr_optionalText hname,
      Json.fieldOr_optionalText hdescription, VariableType.faithful.fieldOr htype,
      Json.fieldOr_optionalText hdefault]
    rfl
  · simp [Json.exact_of_mem_map_string, VariableType.faithful.exact_write]

theorem Values.faithful : Json.Faithful (Values.read Json.shape) Values.toJson :=
  Json.faithful_text.table

theorem Options.faithful : Json.Faithful (Options.read Json.shape) Options.toJson := by
  refine Json.faithful_record (fun o : Options => [("namespace", o.code.map .string)])
    (fun _ => rfl) (by decide) (fun o members hfind => ?_) fun o => ?_
  · rw [List.forall_mem_singleton] at hfind
    rw [Json.fieldOr_optionalText hfind]
    rfl
  · simp [Json.exact_of_mem_map_string]

end Template

theorem ContextDocument.faithful :
    Json.Faithful (ContextDocument.read Json.shape) ContextDocument.toJson := by
  have hcodes := Json.faithful_text.list
  have hscopes := Scope.faithful.list
  refine Json.faithful_record
    (fun d : ContextDocument => [("namespaces", some (.array (d.codes.map .string))),
      ("scopes", some (.array (d.scopes.map Scope.toJson)))])
    (fun _ => rfl) (by decide) (fun d members hfind => ?_) fun d => ?_
  · simp only [List.forall_mem_cons] at hfind
    obtain ⟨hnamespaces, hstored, -⟩ := hfind
    rw [hcodes.fieldOr hnamespaces, hscopes.fieldOr hstored]
    rfl
  · simp [hcodes.exact_write, hscopes.exact_write]

theorem TemplateDocument.faithful :
    Json.Faithful (TemplateDocument.read Json.shape) TemplateDocument.toJson := by
  have hdefinitions := Template.Variable.faithful.list
  refine Json.faithful_record
    (fun d : TemplateDocument =>
      [("variables", some (.array (d.definitions.map Template.Variable.toJson))),
      ("values", some (Template.Values.toJson d.values))])
    (fun _ => rfl) (by decide) (fun d members hfind => ?_) fun d => ?_
  · simp only [List.forall_mem_cons] at hfind
    obtain ⟨hvariables, hvalues, -⟩ := hfind
    rw [hdefinitions.fieldOr hvariables, Template.Values.faithful.fieldOr hvalues]
    rfl
  · simp [hdefinitions.exact_write, Template.Values.faithful.exact_write]

/-! ### Texts -/

/-- The layout of a written value. -/
inductive Json.Layout
  | compact
  | pretty

namespace Json.Layout

/-- The text of a value in a layout. -/
def render : Layout → Json → String
  | compact => Json.render
  | pretty => Json.renderPretty

theorem parse?_render (layout : Layout) {j : Json} (h : j.Exact) :
    Json.parse? (layout.render j) = some j :=
  match layout with
  | compact => Json.parse?_render h
  | pretty => Json.parse?_renderPretty h

end Json.Layout

/-- Reads a text and writes what was read. -/
def rewrite {α : Type} (read : String → Option α) (write : α → String) (text : String) :
    Option String :=
  (read text).map write

/-- Nothing is lost in a text, and texts that are read have a normal form. -/
structure RoundTrips {α : Type} (read : String → Option α) (write : α → String) : Prop where
  /-- What is written for a value is read as the value. -/
  read_write : ∀ v, read (write v) = some v
  /-- Reading and writing a second time changes nothing. -/
  rewrite_rewrite : ∀ text text', rewrite read write text = some text' →
    rewrite read write text' = some text'

/-- If all that is written is read again, then what was read and written is in normal form. -/
theorem RoundTrips.of_read_write {α : Type} {read : String → Option α} {write : α → String}
    (h : ∀ v, read (write v) = some v) : RoundTrips read write where
  read_write := h
  rewrite_rewrite text text' htext := by
    obtain ⟨v, -, rfl⟩ := Option.map_eq_some_iff.mp htext
    rw [rewrite, h, Option.map_some]

/-- **From JSON values to texts**, in any layout. -/
theorem Json.Faithful.roundTrips {α : Type} {read : Json → Option α} {write : α → Json}
    (h : Faithful read write) (layout : Layout) :
    RoundTrips (fun text => (parse? text).bind read) fun v => layout.render (write v) :=
  .of_read_write fun v => by
    rw [layout.parse?_render (h.exact_write v), Option.bind_some, h.read_write]

/-- A repeated key keeps its place and takes its last value. -/
example :
    rewrite (DocumentFormat.json.parse? Template.Values.read) (fun values => values.toJson.render)
      "\x7b\"a\":\"1\",\"b\":\"2\",\"a\":\"3\"\x7d" = some "\x7b\"a\":\"3\",\"b\":\"2\"\x7d" := by
  decide +kernel

/-! ### The fields of a linked value -/

namespace LinkedValue

/-- The fields of a stored linked value as they stand there; both may be present. -/
def readFields {m : Type → Type} {ν : Type} [Monad m] (s : Shape m ν) (value : ν) :
    m (Option String × Option String) := do
  let fields ← s.record ["value", "linkExpression"] value
  let value? ← Shape.fieldOr fields "value" s.optionalText none
  let expression? ← Shape.fieldOr fields "linkExpression" s.optionalText none
  return (value?, expression?)

/-- A linked value is made from the fields that are there. -/
theorem read_eq_map_readFields (j : Json) :
    read Json.shape j = (readFields Json.shape j).map fun f => ofFields f.1 f.2 := by
  simp only [read, readFields, Option.bind_eq_bind, Option.map_bind, Function.comp_def]
  rfl

/-- If both fields are there, the expression counts. -/
theorem fields_ofFields (value? expression? : Option String) :
    (ofFields value? expression?).expression? = expression? ∧
      (ofFields value? expression?).value? = if expression?.isSome then none else value? := by
  cases value? <;> cases expression? <;> exact ⟨rfl, rfl⟩

/-- A linked value is written with one field at most. -/
theorem exists_toJson_eq (v : LinkedValue) :
    ∃ members, v.toJson = .object members ∧ members.length ≤ 1 := by
  cases v with
  | unset => exact ⟨[], rfl, Nat.zero_le 1⟩
  | literal value => exact ⟨[("value", .string value)], rfl, Nat.le_refl 1⟩
  | link expression => exact ⟨[("linkExpression", .string expression)], rfl, Nat.le_refl 1⟩

/-- **Of a stored linked value** only the expression counts if both fields are there. -/
theorem exists_fields_of_parse? {text : String} {v : LinkedValue}
    (h : DocumentFormat.json.parse? read text = some v) :
    ∃ value? expression?,
      DocumentFormat.json.parse? readFields text = some (value?, expression?) ∧
        v.expression? = expression? ∧
          v.value? = if expression?.isSome then none else value? := by
  obtain ⟨j, hj, hv⟩ := Option.bind_eq_some_iff.mp h
  obtain ⟨⟨value?, expression?⟩, hfields, rfl⟩ :=
    Option.map_eq_some_iff.mp ((read_eq_map_readFields j).symm.trans hv)
  exact ⟨value?, expression?, Option.bind_eq_some_iff.mpr ⟨j, hj, hfields⟩, fields_ofFields ..⟩

end LinkedValue

/-! ### All types -/

/-- **Stored values round trip**, in either layout: what is written for a value is read as the
value, and a text of any accepted form is brought to a normal form. Of a stored linked value one
field at most is read: the expression, or else the value. One field at most is written. -/
theorem stored_values_round_trip (layout : Json.Layout) :
    (RoundTrips (DocumentFormat.json.parse? LinkedValue.read)
        fun v => layout.render (LinkedValue.toJson v)) ∧
      (RoundTrips (DocumentFormat.json.parse? ValueType.read)
        fun type => layout.render (ValueType.toJson type)) ∧
      (RoundTrips (DocumentFormat.json.parse? Template.Variable.read)
        fun v => layout.render (Template.Variable.toJson v)) ∧
      (RoundTrips (DocumentFormat.json.parse? Template.Values.read)
        fun values => layout.render (Template.Values.toJson values)) ∧
      (RoundTrips (DocumentFormat.json.parse? Template.Options.read)
        fun options => layout.render (Template.Options.toJson options)) ∧
      (RoundTrips (fun text => (Json.parse? text).bind ExpansionOptions.read)
        fun options => layout.render (ExpansionOptions.toJson options)) ∧
      (RoundTrips (DocumentFormat.json.parse? StatusMessage.read)
        fun message => layout.render (StatusMessage.toJson message)) ∧
      (RoundTrips (DocumentFormat.json.parse? Scope.read)
        fun scope => layout.render (Scope.toJson scope)) ∧
      (RoundTrips (DocumentFormat.json.parse? ContextDocument.read)
        fun document => layout.render (ContextDocument.toJson document)) ∧
      (RoundTrips (DocumentFormat.json.parse? TemplateDocument.read)
        fun document => layout.render (TemplateDocument.toJson document)) ∧
      ∀ text v, DocumentFormat.json.parse? LinkedValue.read text = some v →
        (∃ value? expression?,
          DocumentFormat.json.parse? LinkedValue.readFields text = some (value?, expression?) ∧
            v.expression? = expression? ∧
              v.value? = if expression?.isSome then none else value?) ∧
          (v.value? = none ∨ v.expression? = none) ∧
            ∃ members, Json.parse? (layout.render v.toJson) = some (.object members) ∧
              members.length ≤ 1 := by
  refine ⟨LinkedValue.faithful.roundTrips layout, ValueType.faithful.roundTrips layout,
    Template.Variable.faithful.roundTrips layout, Template.Values.faithful.roundTrips layout,
    Template.Options.faithful.roundTrips layout, ExpansionOptions.faithful.roundTrips layout,
    StatusMessage.faithful.roundTrips layout, Scope.faithful.roundTrips layout,
    ContextDocument.faithful.roundTrips layout, TemplateDocument.faithful.roundTrips layout,
    fun text v h => ?_⟩
  obtain ⟨value?, expression?, hfields, hexpression, hvalue⟩ :=
    LinkedValue.exists_fields_of_parse? h
  obtain ⟨members, hmembers, hlength⟩ := v.exists_toJson_eq
  refine ⟨⟨value?, expression?, hfields, hexpression, hvalue⟩, ?_, members,
    hmembers ▸ layout.parse?_render (LinkedValue.faithful.exact_write v), hlength⟩
  cases expression? with
  | none => exact .inr hexpression
  | some expression => exact .inl hvalue

/-- A linked value with both fields and an unknown one is read as a link, and brought to the form
with the link alone. -/
theorem both_fields_are_rewritten_as_link :
    let read := DocumentFormat.json.parse? LinkedValue.read
    let write := fun v => Json.Layout.compact.render (LinkedValue.toJson v)
    let text := "\x7b\"value\":\"x\",\"note\":[1],\"linkExpression\":\"\x7b\x7bA:X\x7d\x7d\"\x7d"
    let text' := "\x7b\"linkExpression\":\"\x7b\x7bA:X\x7d\x7d\"\x7d"
    read text = some (.link "\x7b\x7bA:X\x7d\x7d") ∧
      rewrite read write text = some text' ∧ rewrite read write text' = some text' ∧
      ∃ members, Json.parse? text' = some (.object members) ∧ members.length ≤ 1 := by
  intro read write text text'
  have hread : read text = some (.link "\x7b\x7bA:X\x7d\x7d") := by decide +kernel
  have hwrite : write (.link "\x7b\x7bA:X\x7d\x7d") = text' := by decide +kernel
  have hrewrite : rewrite read write text = some text' := by rw [rewrite, hread, ← hwrite]; rfl
  obtain ⟨hlinked, -, -, -, -, -, -, -, -, -, hfields⟩ := stored_values_round_trip .compact
  obtain ⟨-, -, hmembers⟩ := hfields text _ hread
  exact ⟨hread, hrewrite, hlinked.rewrite_rewrite text text' hrewrite, hwrite ▸ hmembers⟩

end LinkExpr
