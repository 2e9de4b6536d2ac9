import LinkExpr.Table
import Mathlib.Data.List.Induction
import Mathlib.Data.List.Nodup

/-!
# Tables of Entries

A table is made of entries by inserting them one after the other. The entries may repeat a key: its
first entry decides where it stands, and its last entry decides its value. Place and value are
independent of each other, and entries for one key have no influence on the others.

## Main results

* `Table.keys_ofList`: the keys stand in the order of their first entries.
* `Table.get?_ofList`: the value of a key is that of its last entry.
* `Table.filter_entries_ofList`: without the entries for a key the other keys keep places and
  values.
-/

namespace LinkExpr

/-! ### First occurrences -/

section FirstOccurrences

variable {α : Type} [DecidableEq α] {xs : List α} {a : α}

/-- A further occurrence changes nothing, and a new element comes last. -/
theorem eraseDups_append_singleton :
    (xs ++ [a]).eraseDups = if a ∈ xs then xs.eraseDups else xs.eraseDups ++ [a] := by
  rw [List.eraseDups_append]
  by_cases h : a ∈ xs <;> simp [List.removeAll, List.eraseDups_cons, h]

end FirstOccurrences

namespace Table

variable {α : Type} {key : String}

/-! ### Repeated keys -/

/-- The entry that comes last is inserted last. -/
theorem ofList_append_singleton (es : List (String × α)) (e : String × α) :
    ofList (es ++ [e]) = (ofList es).insert e.1 e.2 :=
  List.foldl_append

/-- **The keys of entries** stand in the order of their first occurrences. -/
theorem keys_ofList (es : List (String × α)) : (ofList es).keys = (es.map Prod.fst).eraseDups := by
  induction es using List.reverseRecOn with
  | nil => rfl
  | append_singleton es e ih =>
      rw [ofList_append_singleton, keys_insert, ih, List.map_append, List.map_cons, List.map_nil,
        eraseDups_append_singleton]
      simp only [List.mem_eraseDups]

/-- **The value of a key** is that of its last entry. -/
theorem get?_ofList (es : List (String × α)) (key : String) :
    (ofList es).get? key =
      (es.filterMap fun e => if e.1 = key then some e.2 else none).getLast? := by
  induction es using List.reverseRecOn with
  | nil => rfl
  | append_singleton es e ih =>
      rw [ofList_append_singleton, get?_insert, ih, List.filterMap_append, List.getLast?_append]
      by_cases hkey : e.1 = key <;> simp [hkey]

/-! ### Other keys -/

/-- Putting an entry in its place is not seen among the entries for other keys. -/
theorem filter_put_self (key : String) (value : α) (es : List (String × α)) :
    (put key value es).filter (·.1 ≠ key) = es.filter (·.1 ≠ key) := by
  induction es with
  | nil => simp [put]
  | cons e rest ih =>
      obtain ⟨k, v⟩ := e
      by_cases hk : k = key <;> simp_all [put]

/-- The place of an entry does not depend on the entries for another key. -/
theorem filter_put_of_ne {k : String} (hk : k ≠ key) (value : α) (es : List (String × α)) :
    (put k value es).filter (·.1 ≠ key) = put k value (es.filter (·.1 ≠ key)) := by
  induction es with
  | nil => simp [put, hk]
  | cons e rest ih =>
      obtain ⟨k', v⟩ := e
      by_cases hsame : k' = k
      · simp [put, hsame, hk]
      · by_cases hkey : k' = key <;> simp_all [put]

/-- **Without the entries for a key** the table of the others is left. -/
theorem filter_entries_ofList (es : List (String × α)) (key : String) :
    (ofList es).entries.filter (·.1 ≠ key) = (ofList (es.filter (·.1 ≠ key))).entries := by
  induction es using List.reverseRecOn with
  | nil => rfl
  | append_singleton es e ih =>
      rw [ofList_append_singleton, List.filter_append]
      by_cases hkey : e.1 = key
      · rw [List.filter_cons_of_neg (by simpa using hkey), List.filter_nil, List.append_nil, ← ih,
          ← hkey]
        exact filter_put_self e.1 e.2 _
      · rw [List.filter_cons_of_pos (by simpa using hkey), List.filter_nil,
          ofList_append_singleton]
        exact (filter_put_of_ne hkey e.2 _).trans (congrArg (put e.1 e.2) ih)

end Table

end LinkExpr
