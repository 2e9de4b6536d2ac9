import LinkExpr.Template.Variable
import LinkExpr.Proofs.Lookup.Entries

/-!
# Values of Definitions

The definitions of a template are read in order, and each of them may contribute a value for its id:
what the user entered, or else its default, or else "false" if it is boolean. The contributions are
the entries that the table of values is made of.

A template may define an id more than once, with other defaults and other types, and some of the
definitions may contribute nothing. What is true of tables of entries settles this: the first
definition that contributes anything decides where the id stands, and the last one decides its
value. Definitions that contribute nothing are as if they were not there.

## Main results

* `contribution?_eq_some_iff`: what a definition contributes.
* `get?_ofDefinitions_iff`, `keys_ofDefinitions`: which value an id has, and where it stands.
* `filter_entries_ofDefinitions`: the other ids without an id.
* `values_follow_definitions`: all of this together.
-/

namespace LinkExpr.Template

/-! ### Contributions -/

/-- What a definition contributes: the value that the user entered for its id, or else its default,
or else "false" if it is boolean. -/
inductive Contributes (user : Values) (v : Variable) : String → Prop
  /-- The user entered a value. -/
  | entered {value : String} : user.get? v.id = some value → Contributes user v value
  /-- The user entered nothing, and there is a default. -/
  | default {value : String} : user.get? v.id = none → v.defaultValue = some value →
      Contributes user v value
  /-- There is neither, and the definition is boolean. -/
  | unset : user.get? v.id = none → v.defaultValue = none → v.type = .boolean →
      Contributes user v "false"

/-- A definition that contributes something. -/
def Contributing (user : Values) (v : Variable) : Prop := ∃ value, Contributes user v value

/-- The last definition of an id that contributes anything contributes a value. -/
def LastContribution (definitions : List Variable) (user : Values) (id value : String) : Prop :=
  ∃ before v after, definitions = before ++ v :: after ∧ v.id = id ∧ Contributes user v value ∧
    ∀ w ∈ after, w.id = id → ¬ Contributing user w

/-- The id of a definition bound to what the definition contributes. -/
def Variable.binding? (user : Values) (v : Variable) : Option (String × String) :=
  (v.contribution? user).map fun value => (v.id, value)

section Contributions

variable {definitions : List Variable} {user user' : Values} {v : Variable} {id value : String}

theorem contribution?_eq_some_iff :
    v.contribution? user = some value ↔ Contributes user v value := by
  constructor
  · intro h
    rw [Variable.contribution?] at h
    split at h
    · rename_i value' _ hentered
      obtain rfl := Option.some.inj h
      exact .entered hentered
    · rename_i value' hentered hdefault
      obtain rfl := Option.some.inj h
      exact .default hentered hdefault
    · rename_i hentered hdefault
      split at h
      · rename_i htype
        obtain rfl := Option.some.inj h
        exact .unset hentered hdefault htype
      · cases h
  · intro h
    cases h with
    | entered hentered => rw [Variable.contribution?, hentered]
    | default hentered hdefault => rw [Variable.contribution?, hentered, hdefault]
    | unset hentered hdefault htype =>
        rw [Variable.contribution?, hentered, hdefault]
        exact if_pos htype

theorem isSome_contribution?_iff : (v.contribution? user).isSome = true ↔ Contributing user v := by
  rw [Option.isSome_iff_exists]
  exact exists_congr fun _ => contribution?_eq_some_iff

instance : DecidablePred (Contributing user) := fun _ => decidable_of_iff _ isSome_contribution?_iff

/-- A definition contributes alike if the user entered alike for its id. -/
theorem contribution?_congr (h : user'.get? v.id = user.get? v.id) :
    v.contribution? user' = v.contribution? user := by
  rw [Variable.contribution?, Variable.contribution?, h]

/-- The values are the table of the entries that the definitions make. -/
theorem ofDefinitions_eq (definitions : List Variable) (user : Values) :
    Values.ofDefinitions definitions user = .ofList (definitions.filterMap (·.binding? user)) := rfl

/-- The ids of the entries are those of the contributing definitions. -/
theorem map_fst_entries (definitions : List Variable) (user : Values) :
    (definitions.filterMap (·.binding? user)).map Prod.fst =
      (definitions.filter (Contributing user ·)).map Variable.id := by
  induction definitions with
  | nil => rfl
  | cons v rest ih =>
      cases hv : v.contribution? user with
      | none =>
          have hsilent : ¬ Contributing user v := by
            rw [← isSome_contribution?_iff, hv]
            exact Bool.false_ne_true
          simp [Variable.binding?, hv, hsilent, ← ih]
      | some value =>
          have hcontributing : Contributing user v := ⟨value, contribution?_eq_some_iff.mp hv⟩
          simp [Variable.binding?, hv, hcontributing, ← ih]

/-- The entries for other ids are those that the definitions of other ids make. -/
theorem filter_entries (definitions : List Variable) (user : Values) (id : String) :
    (definitions.filterMap (·.binding? user)).filter (·.1 ≠ id) =
      (definitions.filter (·.id ≠ id)).filterMap (·.binding? user) := by
  induction definitions with
  | nil => rfl
  | cons v rest ih =>
      by_cases hid : v.id = id <;> cases hv : v.contribution? user <;>
        simp_all [Variable.binding?]

end Contributions

/-! ### Values -/

section Values

variable {definitions : List Variable} {user user' : Values} {id value : String}

/-- **The ids** stand in the order of their first contributing definitions. -/
theorem keys_ofDefinitions (definitions : List Variable) (user : Values) :
    (Values.ofDefinitions definitions user).keys =
      ((definitions.filter (Contributing user ·)).map Variable.id).eraseDups := by
  rw [ofDefinitions_eq, Table.keys_ofList, map_fst_entries]

/-- An id has a value exactly if a definition of it contributes something. -/
theorem mem_keys_ofDefinitions_iff : id ∈ (Values.ofDefinitions definitions user).keys ↔
    ∃ v ∈ definitions, v.id = id ∧ Contributing user v := by
  rw [keys_ofDefinitions, List.mem_eraseDups, List.mem_map]
  constructor
  · rintro ⟨v, hv, hid⟩
    obtain ⟨hmem, hcontributing⟩ := List.mem_filter.mp hv
    exact ⟨v, hmem, hid, of_decide_eq_true hcontributing⟩
  · rintro ⟨v, hmem, hid, hcontributing⟩
    exact ⟨v, List.mem_filter.mpr ⟨hmem, decide_eq_true hcontributing⟩, hid⟩

/-- The value of an id is the last contribution of its definitions. -/
theorem get?_ofDefinitions (definitions : List Variable) (user : Values) (id : String) :
    (Values.ofDefinitions definitions user).get? id =
      (definitions.filterMap fun v =>
        if v.id = id then v.contribution? user else none).getLast? := by
  have hentry : ∀ v : Variable,
      ((v.binding? user).bind fun e => if e.1 = id then some e.2 else none) =
        if v.id = id then v.contribution? user else none := by
    intro v
    rw [Variable.binding?]
    cases v.contribution? user <;> simp
  rw [ofDefinitions_eq, Table.get?_ofList, List.filterMap_filterMap]
  simp only [hentry]

/-- **The value of an id** is what its last contributing definition contributes. -/
theorem get?_ofDefinitions_iff : (Values.ofDefinitions definitions user).get? id = some value ↔
    LastContribution definitions user id value := by
  -- the last definition is the first one from behind
  rw [get?_ofDefinitions, List.getLast?_filterMap, List.findSome?_eq_some_iff]
  constructor
  · rintro ⟨after, v, before, hsplit, hv, hafter⟩
    split at hv
    · rename_i hid
      refine ⟨before.reverse, v, after.reverse, ?_, hid, contribution?_eq_some_iff.mp hv, ?_⟩
      · rw [← List.reverse_inj, hsplit]
        simp
      · rintro w hw hwid ⟨other, hother⟩
        have hsilent := hafter w (List.mem_reverse.mp hw)
        rw [if_pos hwid, contribution?_eq_some_iff.mpr hother] at hsilent
        cases hsilent
    · cases hv
  · rintro ⟨before, v, after, rfl, hid, hv, hafter⟩
    refine ⟨after.reverse, v, before.reverse, by simp, ?_, ?_⟩
    · rw [if_pos hid, contribution?_eq_some_iff.mpr hv]
    · intro w hw
      split
      · rename_i hwid
        rw [← Option.not_isSome_iff_eq_none, isSome_contribution?_iff]
        exact hafter w (List.mem_reverse.mp hw) hwid
      · rfl

/-- **Without an id** there are the values of the definitions of the other ids. -/
theorem filter_entries_ofDefinitions (definitions : List Variable) (user : Values) (id : String) :
    (Values.ofDefinitions definitions user).entries.filter (·.1 ≠ id) =
      (Values.ofDefinitions (definitions.filter (·.id ≠ id)) user).entries := by
  rw [ofDefinitions_eq, Table.filter_entries_ofList, filter_entries, ofDefinitions_eq]

/-- What the user entered matters only for the ids that are defined. -/
theorem ofDefinitions_congr (h : ∀ v ∈ definitions, user'.get? v.id = user.get? v.id) :
    Values.ofDefinitions definitions user' = Values.ofDefinitions definitions user := by
  rw [ofDefinitions_eq, ofDefinitions_eq]
  congr 1
  refine List.filterMap_congr fun v hv => ?_
  rw [Variable.binding?, Variable.binding?, contribution?_congr (h v hv)]

/-- **What the user entered for an id** does not matter for the others. -/
theorem filter_entries_insert (definitions : List Variable) (user : Values) (id value : String) :
    (Values.ofDefinitions definitions (user.insert id value)).entries.filter (·.1 ≠ id) =
      (Values.ofDefinitions definitions user).entries.filter (·.1 ≠ id) := by
  rw [filter_entries_ofDefinitions, filter_entries_ofDefinitions]
  congr 1
  refine ofDefinitions_congr fun v hv => ?_
  have hid : v.id ≠ id := of_decide_eq_true (List.mem_filter.mp hv).2
  rw [Table.get?_insert, if_neg (Ne.symm hid)]

/-- The value of an id depends only on what the user entered for it. -/
theorem get?_ofDefinitions_congr (h : user'.get? id = user.get? id) :
    (Values.ofDefinitions definitions user').get? id =
      (Values.ofDefinitions definitions user).get? id := by
  rw [get?_ofDefinitions, get?_ofDefinitions]
  congr 1
  refine List.filterMap_congr fun v _ => ?_
  split
  · rename_i hid
    exact contribution?_congr (hid ▸ h)
  · rfl

end Values

/-- **The values of a template follow its definitions.** An id has a value exactly if one of its
definitions contributes something, and then what the last of these contributes. Every id is listed
once, and the ids stand in the order of their first contributing definitions. What the user entered
for ids that are not defined has no effect, and what is entered for an id changes neither the values
of the others nor their order. -/
theorem values_follow_definitions (definitions : List Variable) (user : Values) :
    let values := Values.ofDefinitions definitions user
    (∀ id, id ∈ values.keys ↔ ∃ v ∈ definitions, v.id = id ∧ ∃ value, Contributes user v value) ∧
    (∀ id value, values.get? id = some value ↔ LastContribution definitions user id value) ∧
    values.keys.Nodup ∧
    values.keys = ((definitions.filter (Contributing user ·)).map Variable.id).eraseDups ∧
    (∀ user' : Values, (∀ v ∈ definitions, user'.get? v.id = user.get? v.id) →
      Values.ofDefinitions definitions user' = values) ∧
    ∀ id value,
      let changed := Values.ofDefinitions definitions (user.insert id value)
      changed.entries.filter (·.1 ≠ id) = values.entries.filter (·.1 ≠ id) ∧
      ∀ other, other ≠ id → changed.get? other = values.get? other := by
  intro values
  refine ⟨fun id => mem_keys_ofDefinitions_iff, fun id value => get?_ofDefinitions_iff,
    values.nodup_keys, keys_ofDefinitions definitions user, fun user' => ofDefinitions_congr,
    fun id value => ⟨filter_entries_insert definitions user id value, fun other hother => ?_⟩⟩
  refine get?_ofDefinitions_congr ?_
  rw [Table.get?_insert, if_neg (Ne.symm hother)]

/-- An id is defined as a boolean, with a default and as a number, and the number contributes
nothing: the default in the middle is its value. What is entered for an id without a definition is
of no effect. -/
theorem default_between_definitions_is_value :
    let definitions : List Variable := [.ofType "debug" .boolean, .ofType "port" .numeric,
      (Variable.ofType "debug" .string).withDefault "all", .ofType "debug" .numeric]
    (Values.ofDefinitions definitions .empty).get? "debug" = some "all" ∧
      Values.ofDefinitions definitions (Table.empty.insert "host" "web") =
        Values.ofDefinitions definitions .empty ∧
      ((Values.ofDefinitions definitions (Table.empty.insert "port" "80")).get? "debug" =
        (Values.ofDefinitions definitions .empty).get? "debug") := by
  intro definitions
  obtain ⟨-, hvalue, -, -, hundefined, hchanged⟩ := values_follow_definitions definitions .empty
  refine ⟨(hvalue "debug" "all").mpr ?_, hundefined _ (by decide),
    (hchanged "port" "80").2 "debug" (by decide)⟩
  exact ⟨[.ofType "debug" .boolean, .ofType "port" .numeric],
    (Variable.ofType "debug" .string).withDefault "all", [.ofType "debug" .numeric],
    rfl, rfl, .default rfl rfl, by decide⟩

end LinkExpr.Template
