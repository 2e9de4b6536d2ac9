import LinkExpr.Proofs.Scan.Placement
import LinkExpr.Report
import Mathlib.Data.List.DropRight
import Mathlib.Data.Nat.Log
import Mathlib.Order.Bounds.Basic
import Mathlib.Order.MinMax

/-!
# The Line Around a Place

An excerpt shows the line around a place of a text. A `LineCut` takes the text apart there, at the
place itself and at both ends of its line; that the parts are what they are meant to be is said of
them one by one, without a way to find them. Every place has one line cut, and the excerpt around an
offset is read off the cut at the last place that is not behind the offset.

## Main results

* `isGreatest_splitBelow`: the lower cut is at the greatest boundary that is not above an offset.
* `LineCut.make_eq`: the excerpt around an offset, in terms of the line around its place.
* `LineCut.shows_excerpt`: what an excerpt shows, and that its mark stays below its line.
* `Excerpt.fits_make`: every excerpt fits its text, whatever offset it is made for.
-/

namespace LinkExpr

open Text

/-! ### Boundaries -/

namespace Text

variable {cs : List Char} {m n : ℕ}

/-- A text has no more characters than bytes. -/
theorem length_le_byteSize (cs : List Char) : cs.length ≤ byteSize cs := by
  induction cs with
  | nil => exact le_refl 0
  | cons c cs ih =>
      have hpos := c.utf8Size_pos
      rw [List.length_cons, byteSize_cons]
      omega

/-- A text can be cut at an offset. -/
def IsBoundary (cs : List Char) (n : ℕ) : Prop :=
  ∃ before after, cs = before ++ after ∧ byteSize before = n

theorem isBoundary_zero (cs : List Char) : IsBoundary cs 0 := ⟨[], cs, rfl, rfl⟩

theorem IsBoundary.le_byteSize (h : IsBoundary cs n) : n ≤ byteSize cs := by
  obtain ⟨before, after, rfl, rfl⟩ := h
  rw [byteSize_append]
  exact Nat.le_add_right _ _

/-- **The lower cut is at the greatest boundary** that is not above the offset. -/
theorem isGreatest_splitBelow (cs : List Char) (n : ℕ) :
    IsGreatest {m | IsBoundary cs m ∧ m ≤ n} (byteSize (splitBelow cs n).1) := by
  have hcut := splitBelow_append cs n
  refine ⟨⟨⟨_, _, hcut.symm, rfl⟩, byteSize_splitBelow_le cs n⟩, ?_⟩
  rintro m ⟨⟨before, after, hcs, rfl⟩, hle⟩
  by_contra hlt
  -- a later boundary would be behind the character that the offset is inside of
  obtain ⟨more, hbefore, hrest⟩ := exists_append_of_byteSize_le (hcut.trans hcs)
    (Nat.le_of_lt (Nat.not_le.mp hlt))
  cases more with
  | nil =>
      rw [List.append_nil] at hbefore
      exact hlt (hbefore ▸ le_refl _)
  | cons c more =>
      have hpast := lt_byteSize_of_splitBelow hrest
      rw [hbefore, byteSize_append, byteSize_cons] at hle
      omega

/-- Boundaries lie in the text, so an offset may be moved down to its end first. -/
theorem isGreatest_min_iff :
    IsGreatest {m | IsBoundary cs m ∧ m ≤ min n (byteSize cs)} m ↔
      IsGreatest {m | IsBoundary cs m ∧ m ≤ n} m := by
  have hset : {m | IsBoundary cs m ∧ m ≤ min n (byteSize cs)} = {m | IsBoundary cs m ∧ m ≤ n} :=
    Set.ext fun m => and_congr_right fun hm =>
      ⟨fun h => h.trans (Nat.min_le_left _ _), fun h => Nat.le_min.mpr ⟨h, hm.le_byteSize⟩⟩
  rw [hset]

end Text

/-! ### The line around a place -/

namespace Excerpt

variable {above left right below : List Char}

/-- Text without a newline is the beginning of the first line. -/
theorem firstLine_append_of_not_mem (hright : '\n' ∉ right) (below : List Char) :
    firstLine (right ++ below) = right ++ firstLine below := by
  have hall : ∀ c ∈ right, decide (c ≠ '\n') = true :=
    fun c hc => decide_eq_true fun hnewline => hright (hnewline ▸ hc)
  rw [firstLine, List.takeWhile_append_of_pos hall]
  rfl

/-- The first line of a text ends before the first newline. -/
theorem firstLine_append (hright : '\n' ∉ right) (hbelow : below = [] ∨ below.head? = some '\n') :
    firstLine (right ++ below) = right := by
  have hnone : firstLine below = [] := by
    rcases hbelow with rfl | hhead
    · rfl
    · obtain ⟨rest, rfl⟩ := List.head?_eq_some_iff.mp hhead
      simp [firstLine]
  rw [firstLine_append_of_not_mem hright, hnone, List.append_nil]

/-- The last line of a text begins behind the last newline. -/
theorem lastLine_append (habove : above = [] ∨ above.getLast? = some '\n') (hleft : '\n' ∉ left) :
    lastLine (above ++ left) = left := by
  have hfirst : firstLine (left.reverse ++ above.reverse) = left.reverse := by
    refine firstLine_append (fun hmem => hleft (List.mem_reverse.mp hmem)) ?_
    rwa [List.reverse_eq_nil_iff, List.head?_reverse]
  rw [← List.reverse_append] at hfirst
  exact (congrArg List.reverse hfirst).trans (List.reverse_reverse left)

end Excerpt

/-- A text, cut at a place and at both ends of the line around the place. -/
structure LineCut (cs : List Char) where
  /-- The lines above. -/
  above : List Char
  /-- The line up to the place. -/
  left : List Char
  /-- The line from the place on. -/
  right : List Char
  /-- The newline at the end of the line, and the lines below. -/
  below : List Char
  text : above ++ left ++ (right ++ below) = cs
  above_ends : above = [] ∨ above.getLast? = some '\n'
  left_free : '\n' ∉ left
  right_free : '\n' ∉ right
  below_begins : below = [] ∨ below.head? = some '\n'

namespace LineCut

variable {cs : List Char}

/-- The text before the place. -/
def before (cut : LineCut cs) : List Char := cut.above ++ cut.left

/-- The text from the place on. -/
def after (cut : LineCut cs) : List Char := cut.right ++ cut.below

theorem before_append_after (cut : LineCut cs) : cut.before ++ cut.after = cs := cut.text

theorem byteSize_before (cut : LineCut cs) :
    byteSize cut.before = byteSize cut.above + byteSize cut.left := byteSize_append _ _

/-- The place, the rest of its line and what is below make up the size of the text. -/
theorem byteSize_parts (cut : LineCut cs) :
    byteSize cut.before + (byteSize cut.right + byteSize cut.below) = byteSize cs := by
  rw [← byteSize_append, ← byteSize_append]
  exact congrArg byteSize cut.text

theorem lastLine_before (cut : LineCut cs) : Excerpt.lastLine cut.before = cut.left :=
  Excerpt.lastLine_append cut.above_ends cut.left_free

theorem firstLine_after (cut : LineCut cs) : Excerpt.firstLine cut.after = cut.right :=
  Excerpt.firstLine_append cut.right_free cut.below_begins

/-- Every place has a line around it. -/
theorem exists_of_append {front rest : List Char} (h : front ++ rest = cs) :
    ∃ cut : LineCut cs, cut.before = front ∧ cut.after = rest := by
  refine ⟨⟨front.rdropWhile (· ≠ '\n'), front.rtakeWhile (· ≠ '\n'), rest.takeWhile (· ≠ '\n'),
    rest.dropWhile (· ≠ '\n'), ?_, ?_, ?_, ?_, ?_⟩, ?_, ?_⟩
  · rw [List.rdropWhile_append_rtakeWhile, List.takeWhile_append_dropWhile, h]
  · by_cases hnil : front.rdropWhile (· ≠ '\n') = []
    · exact .inl hnil
    · have hlast := List.rdropWhile_last_not (· ≠ '\n') front hnil
      rw [List.getLast?_eq_some_getLast hnil]
      simp_all
  · intro hmem
    simpa using List.mem_rtakeWhile_imp hmem
  · intro hmem
    simpa using List.mem_takeWhile_imp hmem
  · by_cases hnil : rest.dropWhile (· ≠ '\n') = []
    · exact .inl hnil
    · have hhead := List.head_dropWhile_not (· ≠ '\n') hnil
      rw [List.head?_eq_some_head hnil]
      simp_all
  · exact List.rdropWhile_append_rtakeWhile
  · exact List.takeWhile_append_dropWhile

/-- The excerpt that shows the line, highlighting as many bytes as are given. -/
def excerpt (cut : LineCut cs) (size? : Option ℕ) : Excerpt where
  offset := byteSize cut.before
  line := cut.before.count '\n' + 1
  column := (Excerpt.expandTabs cut.left).length + 1
  length? := size?.map fun size => max 1 (splitBelow cut.right size).1.length
  lineText := String.ofList (Excerpt.expandTabs (cut.left ++ cut.right))

/-- **The excerpt around an offset** shows the line around the place that the offset is moved to. -/
theorem make_eq {source : String} {offset : ℕ} (cut : LineCut source.toList)
    (h : splitBelow source.toList offset = (cut.before, cut.after)) (size? : Option ℕ) :
    Excerpt.make source offset size? = cut.excerpt size? := by
  rw [Excerpt.make, h]
  simp only [cut.lastLine_before, cut.firstLine_after]
  rfl

/-- Every offset has a place that it is moved to, and a line around it. -/
theorem exists_of_offset (source : String) (offset : ℕ) :
    ∃ cut : LineCut source.toList,
      splitBelow source.toList offset = (cut.before, cut.after) := by
  obtain ⟨cut, hbefore, hafter⟩ := exists_of_append (splitBelow_append source.toList offset)
  exact ⟨cut, by rw [hbefore, hafter]⟩

/-- What an excerpt shows of the line around a place. -/
structure Shows (cut : LineCut cs) (e : Excerpt) : Prop where
  /-- The offset is that of the place. -/
  place : e.offset = byteSize cut.before
  /-- The line counts the newlines before the place. -/
  line : e.line = 1 + cut.before.count '\n'
  /-- The text is that of the line, with its tabs expanded. -/
  text : e.lineText.toList = Excerpt.expandTabs (cut.left ++ cut.right)
  /-- Behind the column stands what comes after the place. -/
  behind : e.lineText.toList.drop (e.column - 1) = Excerpt.expandTabs cut.right
  /-- The mark stays below the line, or has one character where the line is over. -/
  mark : e.column - 1 + e.length ≤ e.lineText.length ∨
    cut.right = [] ∧ e.column - 1 + e.length = e.lineText.length + 1

/-- Expanding tabs makes no text shorter. -/
theorem length_le_length_expandTabs (cs : List Char) :
    cs.length ≤ (Excerpt.expandTabs cs).length := by
  rw [Excerpt.length_expandTabs]
  exact Nat.le_add_right _ _

/-- The part below the highlight is not longer than the line behind the place. -/
theorem length_splitBelow_le (cs : List Char) (n : ℕ) : (splitBelow cs n).1.length ≤ cs.length := by
  conv_rhs => rw [← splitBelow_append cs n]
  rw [List.length_append]
  exact Nat.le_add_right _ _

/-- At least one character is highlighted, and no more than there are behind the place. -/
theorem length_excerpt (cut : LineCut cs) (size? : Option ℕ) :
    1 ≤ (cut.excerpt size?).length ∧
      (cut.excerpt size?).length ≤ max 1 (Excerpt.expandTabs cut.right).length := by
  cases size? with
  | none => exact ⟨le_refl 1, Nat.le_max_left _ _⟩
  | some size =>
      have hshort := (length_splitBelow_le cut.right size).trans
        (length_le_length_expandTabs cut.right)
      exact ⟨Nat.le_max_left _ _, max_le_max_left 1 hshort⟩

/-- **An excerpt shows the line around its place**, and its mark stays below the line. -/
theorem shows_excerpt (cut : LineCut cs) (size? : Option ℕ) : cut.Shows (cut.excerpt size?) := by
  have htext : (cut.excerpt size?).lineText.toList =
      Excerpt.expandTabs cut.left ++ Excerpt.expandTabs cut.right := by
    rw [excerpt, String.toList_ofList, Excerpt.expandTabs_append]
  have hlength : (cut.excerpt size?).lineText.length =
      (Excerpt.expandTabs cut.left).length + (Excerpt.expandTabs cut.right).length := by
    rw [← String.length_toList, htext, List.length_append]
  have hcolumn : (cut.excerpt size?).column - 1 = (Excerpt.expandTabs cut.left).length := rfl
  refine ⟨rfl, Nat.add_comm _ _, ?_, ?_, ?_⟩
  · rw [htext, Excerpt.expandTabs_append]
  · rw [htext, hcolumn, List.drop_left]
  · obtain ⟨hpos, hle⟩ := cut.length_excerpt size?
    rw [hcolumn, hlength]
    cases hright : cut.right with
    | nil =>
        rw [hright] at hle
        exact .inr ⟨rfl, by simp [Excerpt.expandTabs] at hle ⊢; omega⟩
    | cons c right =>
        have hlong := length_le_length_expandTabs cut.right
        rw [hright, List.length_cons] at hlong
        rw [hright] at hle
        exact .inl (by omega)

end LineCut

/-! ### Excerpts fit -/

namespace Excerpt

/-- The margin has a column for each digit of the line number. -/
theorem margin_eq {e : Excerpt} (h : 1 ≤ e.line) : e.margin = blanks (Nat.log 10 e.line + 1) := by
  have hlength : (toString e.line).length = Nat.log 10 e.line + 1 := by
    refine eq_of_forall_ge_iff fun k => ?_
    change (Nat.repr e.line).length ≤ k ↔ Nat.log 10 e.line < k
    rcases Nat.eq_zero_or_pos k with rfl | hk
    · have hpos : 0 < (Nat.repr e.line).length := Nat.length_repr_pos
      omega
    · rw [Nat.length_repr_le_iff hk, Nat.log_lt_iff_lt_pow (by decide) (by omega)]
  rw [margin, hlength]

/-- An excerpt fits a text and an offset in it. -/
structure Fits (source : String) (offset : ℕ) (e : Excerpt) : Prop where
  /-- The text can be cut at the offset of the excerpt, which is the greatest such offset that is
  neither above the given one nor past the end. -/
  greatest : IsGreatest {n | IsBoundary source.toList n ∧ n ≤ min offset source.utf8ByteSize}
    e.offset
  /-- The line around that place is shown. -/
  shows : ∃ cut : LineCut source.toList, cut.Shows e
  /-- Lines count from one, so that the line number has a logarithm. -/
  line_pos : 1 ≤ e.line
  /-- Columns count from one, so that there is a number of blanks before the mark. -/
  column_pos : 1 ≤ e.column
  /-- A mark has a first character, so that there is a number of dashes behind it. -/
  length_pos : 1 ≤ e.length
  /-- The margin has a column for each digit of the line number. -/
  margin : e.margin = blanks (Nat.log 10 e.line + 1)

/-- **Every excerpt fits**, whatever offset it is made for. -/
theorem fits_make (source : String) (offset : ℕ) (size? : Option ℕ) :
    (make source offset size?).Fits source offset := by
  obtain ⟨cut, hcut⟩ := LineCut.exists_of_offset source offset
  rw [cut.make_eq hcut]
  have hline : 1 ≤ (cut.excerpt size?).line := Nat.le_add_left 1 _
  refine ⟨?_, ⟨cut, cut.shows_excerpt size?⟩, hline, Nat.le_add_left 1 _,
    (cut.length_excerpt size?).1, margin_eq hline⟩
  rw [← byteSize_toList, isGreatest_min_iff]
  have hgreatest := isGreatest_splitBelow source.toList offset
  rwa [hcut] at hgreatest

end Excerpt

end LinkExpr
