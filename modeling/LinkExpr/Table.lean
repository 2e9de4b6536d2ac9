/-!
# Ordered tables

A `Table` maps texts to values and remembers in which order its keys were first inserted. Replacing
the value of a key keeps the place of the key. That every key occurs once is part of the type.

## Main results

* `keys_insert`: an insertion keeps the keys of a table and appends the key if it is new.
* `get?_insert`: an insertion is seen under its key and under no other.
* `ofList_entries`: a table is the table of its entries.
-/

namespace LinkExpr

/-- A map from texts to values with its keys in insertion order. -/
structure Table (α : Type) where
  entries : List (String × α)
  nodup_keys : (entries.map Prod.fst).Nodup

namespace Table

variable {α β : Type}

@[ext] theorem ext {s t : Table α} (h : s.entries = t.entries) : s = t := by
  cases s; cases t; cases h; rfl

instance [DecidableEq α] : DecidableEq (Table α) := fun s t =>
  decidable_of_iff (s.entries = t.entries) ⟨ext, congrArg entries⟩

instance [Repr α] : Repr (Table α) where
  reprPrec t n := reprPrec t.entries n

/-- The value of a key in a list of entries: the first one. -/
def find? (key : String) : List (String × α) → Option α
  | [] => none
  | (k, v) :: rest => if k = key then some v else find? key rest

/-- Replaces the first value of a key in a list of entries, or appends the entry. -/
def put (key : String) (value : α) : List (String × α) → List (String × α)
  | [] => [(key, value)]
  | (k, v) :: rest => if k = key then (k, value) :: rest else (k, v) :: put key value rest

theorem keys_put (key : String) (value : α) (es : List (String × α)) :
    (put key value es).map Prod.fst =
      if key ∈ es.map Prod.fst then es.map Prod.fst else es.map Prod.fst ++ [key] := by
  induction es with
  | nil => simp [put]
  | cons e rest ih =>
      obtain ⟨k, v⟩ := e
      by_cases h : k = key
      · simp [put, h]
      · simp only [put, h, if_false, List.map_cons, ih, List.mem_cons, Ne.symm h, false_or]
        split <;> simp

theorem find?_put (key other : String) (value : α) (es : List (String × α)) :
    find? other (put key value es) = if key = other then some value else find? other es := by
  induction es with
  | nil => simp [put, find?]
  | cons e rest ih =>
      obtain ⟨k, v⟩ := e
      by_cases h : k = key
      · subst h
        by_cases ho : k = other <;> simp [put, find?, ho]
      · by_cases ho : k = other
        · subst ho
          simp [put, find?, h, Ne.symm h]
        · simp [put, find?, h, ho, ih]

theorem find?_eq_none_iff {key : String} {es : List (String × α)} :
    find? key es = none ↔ key ∉ es.map Prod.fst := by
  induction es with
  | nil => simp [find?]
  | cons e rest ih =>
      obtain ⟨k, v⟩ := e
      by_cases h : k = key
      · simp [find?, h]
      · simp [find?, h, ih, Ne.symm h]

/-- The table without entries. -/
def empty : Table α := ⟨[], .nil⟩

instance : Inhabited (Table α) := ⟨empty⟩

/-- The keys in the order of their first insertion. -/
def keys (t : Table α) : List String := t.entries.map Prod.fst

/-- The number of entries. -/
def size (t : Table α) : Nat := t.entries.length

/-- The value of a key. -/
def get? (t : Table α) (key : String) : Option α := find? key t.entries

/-- Whether a key has a value. -/
def contains (t : Table α) (key : String) : Bool := (t.get? key).isSome

/-- Sets the value of a key. -/
def insert (t : Table α) (key : String) (value : α) : Table α where
  entries := put key value t.entries
  nodup_keys := by
    rw [keys_put]
    split
    · exact t.nodup_keys
    · rename_i h
      rw [List.nodup_append]
      exact ⟨t.nodup_keys, List.pairwise_singleton _ _, by
        intro a ha b hb
        obtain rfl := List.mem_singleton.1 hb
        exact fun hab => h (hab ▸ ha)⟩

/-- The table that results from inserting entries one after the other. -/
def ofList (es : List (String × α)) : Table α :=
  es.foldl (fun t e => t.insert e.1 e.2) empty

/-- Changes every value. -/
def map (f : α → β) (t : Table α) : Table β where
  entries := t.entries.map fun e => (e.1, f e.2)
  nodup_keys := by simpa [Function.comp_def] using t.nodup_keys

@[simp] theorem entries_empty : (empty : Table α).entries = [] := rfl

@[simp] theorem keys_empty : (empty : Table α).keys = [] := rfl

@[simp] theorem get?_empty (key : String) : (empty : Table α).get? key = none := rfl

/-- A key is appended when it is new and keeps its place otherwise. -/
theorem keys_insert (t : Table α) (key : String) (value : α) :
    (t.insert key value).keys = if key ∈ t.keys then t.keys else t.keys ++ [key] :=
  keys_put key value t.entries

/-- An insertion is seen under its key and under no other. -/
@[simp] theorem get?_insert (t : Table α) (key other : String) (value : α) :
    (t.insert key value).get? other = if key = other then some value else t.get? other :=
  find?_put key other value t.entries

theorem put_of_not_mem {key : String} (value : α) {es : List (String × α)}
    (h : key ∉ es.map Prod.fst) : put key value es = es ++ [(key, value)] := by
  induction es with
  | nil => rfl
  | cons e rest ih =>
      obtain ⟨k, v⟩ := e
      simp only [List.map_cons, List.mem_cons, not_or] at h
      simp [put, Ne.symm h.1, ih h.2]

theorem entries_foldl_insert (t : Table α) (es : List (String × α))
    (h : (t.keys ++ es.map Prod.fst).Nodup) :
    (es.foldl (fun t e => t.insert e.1 e.2) t).entries = t.entries ++ es := by
  induction es generalizing t with
  | nil => simp
  | cons e rest ih =>
      have hnew : e.1 ∉ t.keys := by
        intro hmem
        exact (List.nodup_append.1 h).2.2 _ hmem e.1 (by simp) rfl
      have hput : (t.insert e.1 e.2).entries = t.entries ++ [e] := put_of_not_mem _ hnew
      rw [List.foldl_cons, ih, hput]
      · simp
      · simpa [keys, hput] using h

/-- A table is the table of its entries. -/
@[simp] theorem ofList_entries (t : Table α) : ofList t.entries = t := by
  apply ext
  have h := entries_foldl_insert empty t.entries (by simpa using t.nodup_keys)
  simpa [ofList] using h

end Table

end LinkExpr
