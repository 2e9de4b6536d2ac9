import LinkExpr.Proofs.Json.Reading

/-!
# Reading What Was Written

Both layouts of a value, the one on a single line and the one over several lines, are read as that
value. They differ in blanks only, and the lemmas on reading items and members allow blanks wherever
the second layout has some.

Numerals other than whole numbers are kept as they are written, and an unreadable value is written
as null; values with such parts are left out.

## Main results

* `Exact.reads_compact`, `Exact.reads_pretty`: by induction on the value, and on its items or
  members.
* `parse?_render`, `parse?_renderPretty`: the text of a value is read as the value.
-/

namespace LinkExpr.Json

/-- Values without numerals that are kept as they are written and without unreadable parts. -/
inductive Exact : Json → Prop
  | null : Exact .null
  | bool (b : Bool) : Exact (.bool b)
  | natural (n : ℕ) : Exact (.natural n)
  | string (text : String) : Exact (.string text)
  | array {items : List Json} (h : ∀ j ∈ items, Exact j) : Exact (.array items)
  | object {members : List (String × Json)} (h : ∀ m ∈ members, Exact m.2) :
      Exact (.object members)

variable {j : Json} {items : List Json} {members : List (String × Json)} {key : String}

theorem reads_toString (n : ℕ) : Reads (toString n).toList (.natural n) := by
  rw [Nat.toString_eq_ofList_toDigits, String.toList_ofList]
  exact reads_natural n

/-! ### On one line -/

theorem readsItems_compact (h : ∀ x ∈ j :: items, Reads x.compact x) :
    ReadsItems (j.compact ++ compactItems items) (j :: items) := by
  rw [List.forall_mem_cons] at h
  -- on the items after the first one: what follows an item is the end or another item
  induction items generalizing j with
  | nil => exact readsItems_last h.1 (List.forall_mem_nil _)
  | cons item items ih =>
      change ReadsItems (j.compact ++ ',' :: (item.compact ++ compactItems items)) _
      exact (ih (List.forall_mem_cons.mp h.2)).cons h.1

theorem readsMembers_compact (h : ∀ m ∈ (key, j) :: members, Reads m.2.compact m.2) :
    ReadsMembers (quote key ++ ':' :: (j.compact ++ compactMembers members))
      ((key, j) :: members) := by
  rw [List.forall_mem_cons] at h
  induction members generalizing key j with
  | nil =>
      have hend : compactMembers [] = [] ++ ['\x7d'] := rfl
      rw [hend]
      exact readsMembers_last key h.1 (List.forall_mem_nil _)
  | cons m members ih =>
      obtain ⟨other, value⟩ := m
      change ReadsMembers (quote key ++ ':' :: (j.compact ++
        ',' :: (quote other ++ ':' :: (value.compact ++ compactMembers members)))) _
      exact (ih (List.forall_mem_cons.mp h.2)).cons key h.1

/-- **A value on one line** is read as the value. -/
theorem Exact.reads_compact (h : j.Exact) : Reads j.compact j := by
  induction h with
  | null => exact reads_null
  | bool b => exact reads_bool b
  | natural n => exact reads_toString n
  | string text => exact reads_quote text
  | @array items _ ih =>
      cases items with
      | nil => exact reads_emptyArray
      | cons item items => exact (readsItems_compact ih).reads
  | @object members _ ih =>
      cases members with
      | nil => exact reads_emptyObject
      | cons m members => exact (readsMembers_compact ih).reads

/-! ### Over several lines -/

theorem isBlank_of_mem_newline {level : ℕ} {c : Char} (h : c ∈ newline level) :
    isBlank c = true := by
  rw [newline, List.mem_cons, List.mem_replicate] at h
  rcases h with rfl | ⟨-, rfl⟩ <;> decide

/-- A value may begin on a new line. -/
theorem reads_newline_append (level : ℕ) {cs : List Char} (h : Reads cs j) :
    Reads (newline level ++ cs) j :=
  h.append fun _ => isBlank_of_mem_newline

/-- A value may stand behind a space. -/
theorem reads_blank_cons {cs : List Char} (h : Reads cs j) : Reads (' ' :: cs) j :=
  Reads.append h (List.forall_mem_singleton.mpr rfl)

theorem readsItems_pretty {level : ℕ} (h : ∀ x ∈ j :: items, Reads (x.pretty (level + 1)) x) :
    ReadsItems (newline (level + 1) ++ j.pretty (level + 1) ++ prettyItems level items)
      (j :: items) := by
  rw [List.forall_mem_cons] at h
  have hline := reads_newline_append (level + 1) h.1
  induction items generalizing j with
  | nil =>
      exact readsItems_last hline fun _ => isBlank_of_mem_newline
  | cons item items ih =>
      have hrest := List.forall_mem_cons.mp h.2
      exact (ih hrest (reads_newline_append (level + 1) hrest.1)).cons hline

theorem readsMembers_pretty {level : ℕ}
    (h : ∀ m ∈ (key, j) :: members, Reads (m.2.pretty (level + 1)) m.2) :
    ReadsMembers (newline (level + 1) ++ quote key ++ ':' :: ' ' :: j.pretty (level + 1) ++
      prettyMembers level members) ((key, j) :: members) := by
  rw [List.forall_mem_cons] at h
  have hvalue := reads_blank_cons h.1
  induction members generalizing key j with
  | nil =>
      rw [List.append_assoc, List.append_assoc]
      exact (readsMembers_last key hvalue fun _ => isBlank_of_mem_newline).append
        fun _ => isBlank_of_mem_newline
  | cons m members ih =>
      rw [List.append_assoc, List.append_assoc]
      have hrest := List.forall_mem_cons.mp h.2
      exact ((ih hrest (reads_blank_cons hrest.1)).cons key hvalue).append
        fun _ => isBlank_of_mem_newline

/-- **A value over several lines** is read as the value. -/
theorem Exact.reads_pretty (h : j.Exact) (level : ℕ) : Reads (j.pretty level) j := by
  induction h generalizing level with
  | null => exact reads_null
  | bool b => exact reads_bool b
  | natural n => exact reads_toString n
  | string text => exact reads_quote text
  | @array items _ ih =>
      cases items with
      | nil => exact reads_emptyArray
      | cons item items => exact (readsItems_pretty fun x hx => ih x hx (level + 1)).reads
  | @object members _ ih =>
      cases members with
      | nil => exact reads_emptyObject
      | cons m members => exact (readsMembers_pretty fun x hx => ih x hx (level + 1)).reads

/-! ### Documents -/

/-- The text of a value on one line is read as the value. -/
theorem parse?_render (h : j.Exact) : parse? j.render = some j := by
  refine Reads.parse? ?_
  rw [render, String.toList_ofList]
  exact h.reads_compact

/-- The text of a value over several lines is read as the value. -/
theorem parse?_renderPretty (h : j.Exact) : parse? j.renderPretty = some j := by
  refine Reads.parse? ?_
  rw [renderPretty, String.toList_ofList]
  exact h.reads_pretty 0

end LinkExpr.Json
