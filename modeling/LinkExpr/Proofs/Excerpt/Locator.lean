import LinkExpr.Proofs.Excerpt.Lines
import Mathlib.Algebra.Group.Nat.Defs

/-!
# The Locator

A locator finds an excerpt with offsets only, as numbers of 64 bits. It moves an offset down step by
step until the text can be cut there, searches for the newlines on both sides, and cuts the text at
the offsets it has found. Everything that could go wrong is checked: a sum or a product that is no
such number, a difference below zero, and a cut past the end of the text or inside a character.

For a text that is short enough to be a string, and for every span, wherever its positions come
from, only one of these steps can fail. What keeps the sum of an offset and a size small is that the
size is the difference of two offsets and that the offset was only ever moved down. A column counts
four for a tab and has no such bound: it is no number of the machine if too many tabs stand before
the place in its line. A text of fewer than `2 ^ 62` bytes does not have so many; one of `2 ^ 62`
tabs has. The memory that such texts take up has no bound here.

## Main results

* `floorBoundary_min`: the search for a boundary ends at the lower cut.
* `column_eq`: when a column is a number of the machine.
* `locate_eq`: the locator finds the excerpt of the line around a place.
* `excerpts_are_safe_and_exact`: the excerpts of all spans and of all offsets.
-/

namespace LinkExpr

open Text

namespace Locator

/-- What can go wrong while an excerpt is located. -/
inductive Panic
  /-- A sum or a product is past the numbers of the machine. -/
  | overflow
  /-- A difference is below zero. -/
  | underflow
  /-- The text has no part between two offsets. -/
  | slice
deriving DecidableEq, Repr

/-- Every string has fewer bytes than this. -/
def stringLimit : ℕ := UInt64.size / 2

theorem stringLimit_add_one_lt : stringLimit + 1 < UInt64.size := by decide

/-! ### Checked steps -/

/-- The sum of two numbers of the machine. -/
def add (a b : ℕ) : Except Panic ℕ :=
  if a + b < UInt64.size then .ok (a + b) else .error .overflow

/-- The product of two numbers of the machine. -/
def mul (a b : ℕ) : Except Panic ℕ :=
  if a * b < UInt64.size then .ok (a * b) else .error .overflow

/-- The difference of two numbers of the machine. -/
def sub (a b : ℕ) : Except Panic ℕ :=
  if b ≤ a then .ok (a - b) else .error .underflow

/-- The part of a text between two offsets. -/
def slice (cs : List Char) (start stop : ℕ) : Except Panic (List Char) :=
  match slice? cs start stop with
  | some part => .ok part
  | none => .error .slice

/-- The last offset that is not above a given one and at which the text can be cut. -/
def floorBoundary (cs : List Char) : ℕ → ℕ
  | 0 => 0
  | n + 1 => if (splitAtOffset? cs (n + 1)).isSome then n + 1 else floorBoundary cs n

/-- The offset of the first place where a character stands. -/
def firstOffset? (c : Char) (cs : List Char) : Option ℕ :=
  (splitAtFirst? c cs).map fun (before, _) => byteSize before

/-- The offset of the last place where a character stands. -/
def lastOffset? (c : Char) : List Char → Option ℕ
  | [] => none
  | a :: rest =>
      match lastOffset? c rest with
      | some n => some (a.utf8Size + n)
      | none => if a = c then some 0 else none

/-- Where the last line of a text begins: behind the last newline. -/
def lineStart (before : List Char) : Except Panic ℕ :=
  match lastOffset? '\n' before with
  | some n => add n 1
  | none => .ok 0

/-- Where the line ends that goes on from an offset: at the next newline. -/
def lineEnd (cs : List Char) (offset : ℕ) (after : List Char) : Except Panic ℕ :=
  match firstOffset? '\n' after with
  | some n => add offset n
  | none => .ok (byteSize cs)

/-- The column behind some text of a line: one for every character, and three more for a tab. -/
def column (left : List Char) : Except Panic ℕ := do
  let count ← add left.length 1
  let added ← mul (left.count '\t') 3
  add count added

/-- The number of highlighted characters: those of the given number of bytes, but none behind the
end of the line. -/
def highlight? (cs : List Char) (offset lineEnd : ℕ) : Option ℕ → Except Panic (Option ℕ)
  | none => .ok none
  | some size => do
      let stop ← add offset size
      let part ← slice cs offset (floorBoundary cs (min stop lineEnd))
      return some (max 1 part.length)

/-- Locates the excerpt around an offset. -/
def locate (source : String) (offset : ℕ) (size? : Option ℕ) : Except Panic Excerpt := do
  let cs := source.toList
  let offset := floorBoundary cs (min offset (byteSize cs))
  let before ← slice cs 0 offset
  let lineStart ← lineStart before
  let after ← slice cs offset (byteSize cs)
  let lineEnd ← lineEnd cs offset after
  let left ← slice cs lineStart offset
  let column ← column left
  let line ← add (before.count '\n') 1
  let length? ← highlight? cs offset lineEnd size?
  let lineText ← slice cs lineStart lineEnd
  return ⟨offset, line, column, length?, String.ofList (Excerpt.expandTabs lineText)⟩

/-- Locates the excerpt around an offset, without a range. -/
def atOffset (source : String) (offset : ℕ) : Except Panic Excerpt := locate source offset none

/-- Locates the excerpt that highlights a span; an empty span is highlighted as one byte. -/
def ofSpan (source : String) (span : Span) : Except Panic Excerpt := do
  let size ← sub span.stop.offset span.start.offset
  locate source span.start.offset (some (max 1 size))

/-! ### Each step succeeds -/

section Steps

variable {cs before part after left right : List Char} {a b n : ℕ}

theorem ok_bind {α β : Type} (x : α) (f : α → Except Panic β) : (.ok x >>= f) = f x := rfl

theorem add_eq_ok (h : a + b < UInt64.size) : add a b = .ok (a + b) := if_pos h

theorem error_bind {α β : Type} (panic : Panic) (f : α → Except Panic β) :
    (.error panic >>= f) = .error panic := rfl

/-- **A column is a number of the machine** exactly if the text before it, with its tabs expanded,
is short enough: no step on the way is past the numbers of the machine before the last one is. -/
theorem column_eq (left : List Char) :
    column left =
      if (Excerpt.expandTabs left).length + 1 < UInt64.size then
        .ok ((Excerpt.expandTabs left).length + 1)
      else .error .overflow := by
  rw [Excerpt.length_expandTabs, column]
  by_cases hcount : left.length + 1 < UInt64.size
  · rw [add_eq_ok hcount, ok_bind]
    by_cases hadded : left.count '\t' * 3 < UInt64.size
    · rw [mul, if_pos hadded, ok_bind, add,
        show left.length + 1 + left.count '\t' * 3 = left.length + 3 * left.count '\t' + 1 by omega]
    · rw [mul, if_neg hadded, error_bind, if_neg (by omega)]
  · rw [add, if_neg hcount, error_bind, if_neg (by omega)]

theorem slice_eq_ok (before after : List Char) (h : before ++ part ++ after = cs)
    (ha : byteSize before = a) (hb : byteSize before + byteSize part = b) :
    slice cs a b = .ok part := by
  have hslice : slice? cs a b = some part :=
    slice?_eq_some_iff.mpr ⟨before, after, h.symm, ha, hb⟩
  rw [slice, hslice]

/-- The text can be cut at an offset exactly if the cut is not refused. -/
theorem isSome_splitAtOffset?_iff : (splitAtOffset? cs n).isSome ↔ IsBoundary cs n := by
  rw [Option.isSome_iff_exists, Prod.exists]
  exact exists_congr fun _ => exists_congr fun _ => splitAtOffset?_eq_some_iff

/-- The search for a boundary ends at the greatest one. -/
theorem isGreatest_floorBoundary (cs : List Char) (n : ℕ) :
    IsGreatest {m | IsBoundary cs m ∧ m ≤ n} (floorBoundary cs n) := by
  induction n with
  | zero => exact ⟨⟨isBoundary_zero cs, le_refl 0⟩, fun m hm => hm.2⟩
  | succ n ih =>
      rw [floorBoundary]
      split
      · rename_i hsome
        exact ⟨⟨isSome_splitAtOffset?_iff.mp hsome, le_refl _⟩, fun m hm => hm.2⟩
      · rename_i hnone
        refine ⟨⟨ih.1.1, Nat.le_succ_of_le ih.1.2⟩, fun m hm => ih.2 ⟨hm.1, ?_⟩⟩
        have hne : m ≠ n + 1 := by
          rintro rfl
          exact hnone (isSome_splitAtOffset?_iff.mpr hm.1)
        exact Nat.le_of_lt_succ (lt_of_le_of_ne hm.2 hne)

/-- **The search for a boundary ends at the lower cut.** -/
theorem floorBoundary_min (cs : List Char) (n : ℕ) :
    floorBoundary cs (min n (byteSize cs)) = byteSize (splitBelow cs n).1 :=
  (isGreatest_floorBoundary cs _).unique (isGreatest_min_iff.mpr (isGreatest_splitBelow cs n))

/-- Boundaries of a text that begins with another one, from the end of that one on. -/
theorem isGreatest_add (h : IsGreatest {m | IsBoundary right m ∧ m ≤ n} a) :
    IsGreatest {m | IsBoundary (before ++ (right ++ after)) m ∧
      m ≤ byteSize before + min n (byteSize right)} (byteSize before + a) := by
  obtain ⟨⟨⟨x, y, rfl, rfl⟩, hle⟩, hgreatest⟩ := h
  refine ⟨⟨⟨before ++ x, y ++ after, by simp, byteSize_append _ _⟩, ?_⟩, ?_⟩
  · rw [byteSize_append]
    omega
  · rintro m ⟨⟨front, rest, hcut, rfl⟩, hm⟩
    by_cases hshort : byteSize front ≤ byteSize before
    · exact hshort.trans (Nat.le_add_right _ _)
    · -- the boundary is one of the part behind the text in front
      obtain ⟨more, rfl, hrest⟩ := exists_append_of_byteSize_le hcut (by omega)
      rw [byteSize_append] at hm ⊢
      obtain ⟨y', hy, -⟩ := exists_append_of_byteSize_le hrest.symm (by omega)
      have hmore := hgreatest ⟨⟨more, y', hy, rfl⟩, by omega⟩
      omega

/-- The end of a highlighted range, moved down to a boundary. -/
theorem floorBoundary_highlight (before right after : List Char) (size : ℕ) :
    floorBoundary (before ++ (right ++ after))
        (min (byteSize before + size) (byteSize before + byteSize right)) =
      byteSize before + byteSize (splitBelow right size).1 := by
  rw [Nat.add_min_add_left]
  exact (isGreatest_floorBoundary _ _).unique (isGreatest_add (isGreatest_splitBelow right size))

theorem lastOffset?_eq_none {c : Char} (h : c ∉ cs) : lastOffset? c cs = none := by
  induction cs with
  | nil => rfl
  | cons a rest ih =>
      obtain ⟨hne, hrest⟩ := not_or.mp (mt List.mem_cons.mpr h)
      rw [lastOffset?, ih hrest]
      exact if_neg (Ne.symm hne)

/-- The last place of a character is the one behind which it does not stand. -/
theorem lastOffset?_append {c : Char} (h : c ∉ after) :
    lastOffset? c (before ++ c :: after) = some (byteSize before) := by
  induction before with
  | nil => rw [List.nil_append, lastOffset?, lastOffset?_eq_none h]; simp
  | cons a before ih => rw [List.cons_append, lastOffset?, ih]; rfl

end Steps

/-! ### The line around a place -/

section Line

variable {cs : List Char} {size? : Option ℕ}

/-- The line begins where the lines above end. -/
theorem lineStart_before (cut : LineCut cs) (h : byteSize cs < UInt64.size) :
    lineStart cut.before = .ok (byteSize cut.above) := by
  have hsize := cut.byteSize_parts
  rw [cut.byteSize_before] at hsize
  rw [lineStart, LineCut.before]
  rcases cut.above_ends with hnil | hlast
  · rw [hnil, List.nil_append, lastOffset?_eq_none cut.left_free]
    rfl
  · obtain ⟨lines, habove⟩ := List.getLast?_eq_some_iff.mp hlast
    rw [habove, byteSize_append] at hsize
    have hnewline : byteSize ['\n'] = 1 := rfl
    rw [habove, List.append_assoc, List.singleton_append, lastOffset?_append cut.left_free,
      byteSize_append, hnewline]
    exact add_eq_ok (by omega)

/-- The line ends where what is below it begins. -/
theorem lineEnd_after (cut : LineCut cs) (h : byteSize cs < UInt64.size) :
    lineEnd cs (byteSize cut.before) cut.after =
      .ok (byteSize cut.before + byteSize cut.right) := by
  have hsize := cut.byteSize_parts
  rw [lineEnd, firstOffset?, LineCut.after]
  rcases cut.below_begins with hnil | hhead
  · have hnone : splitAtFirst? '\n' cut.right = none :=
      splitAtFirst?_eq_none_iff.mpr cut.right_free
    rw [hnil, byteSize_nil] at hsize
    rw [hnil, List.append_nil, hnone]
    exact congrArg Except.ok (by omega)
  · obtain ⟨rest, hbelow⟩ := List.head?_eq_some_iff.mp hhead
    have hsome : splitAtFirst? '\n' (cut.right ++ '\n' :: rest) = some (cut.right, rest) :=
      splitAtFirst?_eq_some_iff.mpr ⟨rfl, cut.right_free⟩
    have hsum : byteSize cut.before + byteSize cut.right < UInt64.size := by omega
    rw [hbelow, hsome]
    exact add_eq_ok hsum

/-- The highlighted part of the line is cut out. -/
theorem highlight?_eq_ok (cut : LineCut cs)
    (hsize : ∀ size ∈ size?, byteSize cut.before + size < UInt64.size) :
    highlight? cs (byteSize cut.before) (byteSize cut.before + byteSize cut.right) size? =
      .ok (cut.excerpt size?).length? := by
  cases size? with
  | none => rfl
  | some size =>
      have hright := splitBelow_append cut.right size
      have hcs : cut.before ++ (splitBelow cut.right size).1 ++
          ((splitBelow cut.right size).2 ++ cut.below) = cs := by
        rw [List.append_assoc, ← List.append_assoc _ _ cut.below, hright]
        exact cut.text
      have hfloor : floorBoundary cs (min (byteSize cut.before + size)
          (byteSize cut.before + byteSize cut.right)) =
            byteSize cut.before + byteSize (splitBelow cut.right size).1 := by
        have htext : cut.before ++ (cut.right ++ cut.below) = cs := cut.text
        have hparts := floorBoundary_highlight cut.before cut.right cut.below size
        rwa [htext] at hparts
      rw [highlight?, add_eq_ok (hsize size rfl), ok_bind, hfloor, slice_eq_ok _ _ hcs rfl rfl,
        ok_bind]
      rfl

/-- The parts of a text that a line cut names are found between their offsets. -/
theorem slices_of_cut (cut : LineCut cs) :
    slice cs 0 (byteSize cut.before) = .ok cut.before ∧
    slice cs (byteSize cut.before) (byteSize cs) = .ok cut.after ∧
    slice cs (byteSize cut.above) (byteSize cut.before) = .ok cut.left ∧
    slice cs (byteSize cut.above) (byteSize cut.before + byteSize cut.right) =
      .ok (cut.left ++ cut.right) := by
  have hbefore := cut.byteSize_before
  have htext : cut.above ++ cut.left ++ cut.after = cs := cut.text
  refine ⟨slice_eq_ok [] cut.after htext rfl (Nat.zero_add _),
    slice_eq_ok cut.before [] ?_ rfl ?_,
    slice_eq_ok cut.above cut.after htext rfl hbefore.symm,
    slice_eq_ok cut.above cut.below ?_ rfl ?_⟩
  · rw [List.append_nil]
    exact htext
  · rw [LineCut.after, byteSize_append]
    exact cut.byteSize_parts
  · rw [List.append_assoc, List.append_assoc, ← List.append_assoc]
    exact htext
  · rw [hbefore, byteSize_append, Nat.add_assoc]

/-- **The locator finds the excerpt of the line around a place** if its column is a number of the
machine; otherwise it fails over the column. -/
theorem locate_eq {source : String} {offset : ℕ} (cut : LineCut source.toList)
    (hcut : splitBelow source.toList offset = (cut.before, cut.after))
    (hsource : byteSize source.toList < stringLimit)
    (hsize : ∀ size ∈ size?, byteSize cut.before + size < UInt64.size) :
    locate source offset size? =
      if (cut.excerpt size?).column < UInt64.size then .ok (cut.excerpt size?)
      else .error .overflow := by
  have hlimit := stringLimit_add_one_lt
  have hword : byteSize source.toList < UInt64.size := by omega
  have hfloor := floorBoundary_min source.toList offset
  rw [hcut] at hfloor
  obtain ⟨hbefore, hafter, hleft, hline⟩ := slices_of_cut cut
  have hnewlines : add (cut.before.count '\n') 1 = .ok (cut.before.count '\n' + 1) := by
    have hcount : cut.before.count '\n' ≤ byteSize cut.before :=
      List.count_le_length.trans (length_le_byteSize cut.before)
    have hparts := cut.byteSize_parts
    exact add_eq_ok (by omega)
  have hplace : (cut.excerpt size?).column = (Excerpt.expandTabs cut.left).length + 1 := rfl
  simp only [locate, hfloor, hbefore, hafter, lineStart_before cut hword,
    lineEnd_after cut hword, hleft, column_eq, hplace, ok_bind]
  by_cases hcolumn : (Excerpt.expandTabs cut.left).length + 1 < UInt64.size
  · rw [if_pos hcolumn, if_pos hcolumn]
    simp only [hnewlines, highlight?_eq_ok cut hsize, hline, ok_bind]
    rfl
  · rw [if_neg hcolumn, if_neg hcolumn, error_bind]

end Line

/-! ### The column -/

/-- The number of characters before a place in its line, with tabs expanded. -/
def widthBefore (source : String) (offset : ℕ) : ℕ :=
  (Excerpt.expandTabs (Excerpt.lastLine (splitBelow source.toList offset).1)).length

/-- The column of a place is a number of the machine. -/
def ColumnFits (source : String) (offset : ℕ) : Prop :=
  widthBefore source offset + 1 < UInt64.size

instance (source : String) (offset : ℕ) : Decidable (ColumnFits source offset) :=
  inferInstanceAs (Decidable (_ < _))

/-- A line before a place is not longer than the text, and a tab takes up four columns. -/
theorem widthBefore_le (source : String) (offset : ℕ) :
    widthBefore source offset ≤ 4 * source.utf8ByteSize := by
  obtain ⟨cut, hcut⟩ := LineCut.exists_of_offset source offset
  have hparts := cut.byteSize_parts
  rw [cut.byteSize_before] at hparts
  have hlength := length_le_byteSize cut.left
  have htabs : cut.left.count '\t' ≤ cut.left.length := List.count_le_length
  rw [widthBefore, hcut, cut.lastLine_before, Excerpt.length_expandTabs, ← byteSize_toList]
  omega

/-- A column is a number of the machine in every text of fewer than `2 ^ 62` bytes. -/
theorem columnFits_of_lt {source : String} (h : source.utf8ByteSize < 2 ^ 62) (offset : ℕ) :
    ColumnFits source offset := by
  have hword : UInt64.size = 4 * 2 ^ 62 := rfl
  have hwidth := widthBefore_le source offset
  rw [ColumnFits, hword]
  omega

/-- The locator gives the excerpt that is made for an offset and a size if the column and the end of
the highlighted range are numbers of the machine. -/
theorem locate_make {source : String} {offset : ℕ} {size? : Option ℕ}
    (hsource : source.utf8ByteSize < stringLimit)
    (hsize : ∀ size ∈ size?, ∀ place ≤ offset, place < stringLimit →
      place + size < UInt64.size) :
    locate source offset size? =
      if ColumnFits source offset then .ok (.make source offset size?) else .error .overflow := by
  obtain ⟨cut, hcut⟩ := LineCut.exists_of_offset source offset
  rw [← byteSize_toList] at hsource
  have hplace : byteSize cut.before ≤ offset := by
    have hle := byteSize_splitBelow_le source.toList offset
    rwa [hcut] at hle
  have hparts := cut.byteSize_parts
  have hlocate := locate_eq cut hcut hsource fun size hmem =>
    hsize size hmem _ hplace (by omega)
  rw [← cut.make_eq hcut] at hlocate
  exact hlocate

/-- The locator gives the excerpt around an offset if its column is a number of the machine. -/
theorem locate_offset {source : String} (hsource : source.utf8ByteSize < stringLimit)
    (offset : ℕ) :
    atOffset source offset =
      if ColumnFits source offset then .ok (.atOffset source offset) else .error .overflow := by
  rw [atOffset, Excerpt.atOffset]
  exact locate_make hsource nofun

/-- The locator gives the excerpt of a span, wherever its positions come from, if the column is a
number of the machine. -/
theorem locate_span {source : String} (hsource : source.utf8ByteSize < stringLimit) {span : Span}
    (hstop : span.stop.offset < UInt64.size) :
    ofSpan source span =
      if ColumnFits source span.start.offset then .ok (.ofSpan source span)
      else .error .overflow := by
  have hordered : span.start.offset ≤ span.stop.offset := span.ordered.1
  have hsub : sub span.stop.offset span.start.offset = .ok span.size := if_pos hordered
  have hlimit := stringLimit_add_one_lt
  rw [ofSpan, hsub, ok_bind, Excerpt.ofSpan]
  refine locate_make hsource fun size hmem place hplace hshort => ?_
  obtain rfl := Option.some.inj hmem
  rw [Span.size]
  -- the place is not behind the start, so the sum is not behind the end of the span
  omega

/-! ### Tabs -/

/-- A text of nothing but tabs. -/
def tabs (n : ℕ) : String := String.ofList (List.replicate n '\t')

theorem byteSize_replicate_tab (n : ℕ) : byteSize (List.replicate n '\t') = n := by
  induction n with
  | zero => rfl
  | succ n ih =>
      have htab : '\t'.utf8Size = 1 := rfl
      rw [List.replicate_succ, byteSize_cons, ih, htab, Nat.add_comm]

theorem utf8ByteSize_tabs (n : ℕ) : (tabs n).utf8ByteSize = n := by
  rw [← byteSize_toList, tabs, String.toList_ofList, byteSize_replicate_tab]

/-- Behind all the tabs every one of them takes up four columns. -/
theorem widthBefore_tabs (n : ℕ) : widthBefore (tabs n) n = 4 * n := by
  have hcut : splitBelow (List.replicate n '\t') n = (List.replicate n '\t', []) := by
    have hall := splitBelow_byteSize (List.replicate n '\t') []
    rwa [List.append_nil, byteSize_replicate_tab] at hall
  have hline : Excerpt.lastLine ([] ++ List.replicate n '\t') = List.replicate n '\t' :=
    Excerpt.lastLine_append (.inl rfl) fun h => absurd (List.eq_of_mem_replicate h) (by decide)
  rw [List.nil_append] at hline
  rw [widthBefore, tabs, String.toList_ofList, hcut, hline, Excerpt.length_expandTabs,
    List.length_replicate, List.count_replicate_self]
  omega

/-- Behind too many tabs no excerpt is located. -/
theorem atOffset_tabs {n : ℕ} (hsource : n < stringLimit) (hwide : UInt64.size ≤ 4 * n + 1) :
    atOffset (tabs n) n = .error .overflow := by
  have hcolumn : ¬ ColumnFits (tabs n) n := by
    rw [ColumnFits, widthBefore_tabs]
    exact not_lt.mpr hwide
  rw [locate_offset (by rwa [utf8ByteSize_tabs]), if_neg hcolumn]

end Locator

/-- Two positions bound a span exactly if they are its ends. -/
theorem Span.between_eq_ok_iff {start stop : Position} {span : Span} :
    Span.between start stop = .ok span ↔ span.start = start ∧ span.stop = stop := by
  constructor
  · intro h
    rw [Span.between] at h
    split at h
    · split at h
      · obtain rfl := Except.ok.inj h
        exact ⟨rfl, rfl⟩
      · cases h
    · cases h
  · rintro ⟨rfl, rfl⟩
    exact span.between_eq_ok

/-- **Excerpts are safe and exact.** In a text that is short enough to be a string, the excerpt of
every span that two positions bound, and that of every offset, is located without a sum of offsets
past 64 bits, a difference below zero or a cut where the text cannot be cut. Only the column can
fail, and it does exactly if the line before the place, with its tabs expanded, is too long for a
column of 64 bits. In a text of fewer than `2 ^ 62` bytes no line is. Every excerpt fits the text:
it shows the line around the last place that is not behind the offset, and the mark stays below that
line. -/
theorem excerpts_are_safe_and_exact (source : String)
    (hsource : source.utf8ByteSize < Locator.stringLimit) :
    (∀ (start stop : Position) (span : Span), stop.offset < UInt64.size →
      Span.between start stop = .ok span →
        Locator.ofSpan source span =
          (if Locator.ColumnFits source start.offset then .ok (.ofSpan source span)
          else .error .overflow) ∧
        (Excerpt.ofSpan source span).Fits source start.offset) ∧
    (∀ offset < UInt64.size,
      Locator.atOffset source offset =
        (if Locator.ColumnFits source offset then .ok (.atOffset source offset)
        else .error .overflow) ∧
      (Excerpt.atOffset source offset).Fits source offset) ∧
    (source.utf8ByteSize < 2 ^ 62 → ∀ offset, Locator.ColumnFits source offset) := by
  refine ⟨?_, ?_, Locator.columnFits_of_lt⟩
  · intro start stop span hstop hspan
    obtain ⟨rfl, rfl⟩ := Span.between_eq_ok_iff.mp hspan
    exact ⟨Locator.locate_span hsource hstop, Excerpt.fits_make source _ _⟩
  · intro offset _
    exact ⟨Locator.locate_offset hsource offset, Excerpt.fits_make source offset none⟩

/-- Behind `2 ^ 62` tabs, which are short enough to be a string, the column is past 64 bits. -/
theorem column_behind_tabs_overflows :
    (Locator.tabs (2 ^ 62)).utf8ByteSize < Locator.stringLimit ∧ 2 ^ 62 < UInt64.size ∧
      Locator.atOffset (Locator.tabs (2 ^ 62)) (2 ^ 62) = .error .overflow := by
  have hsource : 2 ^ 62 < Locator.stringLimit := by decide
  have hwide : UInt64.size ≤ 4 * 2 ^ 62 + 1 := by decide
  refine ⟨?_, by decide, Locator.atOffset_tabs hsource hwide⟩
  rw [Locator.utf8ByteSize_tabs]
  exact hsource

/-- A span from inside a character of three bytes to the last offset there is. -/
def farSpan : Span where
  start := ⟨4, 7, 1⟩
  stop := ⟨18446744073709551615, 7, 1⟩
  ordered := by decide

/-- The far span is moved down to the beginning of the character and cut at the end of its line. -/
theorem far_span_is_located :
    "a\n\t€\tb\nc".utf8ByteSize < Locator.stringLimit ∧
    Span.between ⟨4, 7, 1⟩ ⟨18446744073709551615, 7, 1⟩ = .ok farSpan ∧
    Locator.ofSpan "a\n\t€\tb\nc" farSpan = .ok ⟨3, 2, 5, some 3, "    €    b"⟩ := by
  have hsource : "a\n\t€\tb\nc".utf8ByteSize < Locator.stringLimit := by decide +kernel
  have hspan : Span.between ⟨4, 7, 1⟩ ⟨18446744073709551615, 7, 1⟩ = .ok farSpan := by decide
  have hexcerpt : Excerpt.ofSpan "a\n\t€\tb\nc" farSpan = ⟨3, 2, 5, some 3, "    €    b"⟩ := by
    decide +kernel
  obtain ⟨hspans, -, hshort⟩ := excerpts_are_safe_and_exact "a\n\t€\tb\nc" hsource
  have hlocate := (hspans _ _ farSpan (by decide) hspan).1
  rw [if_pos (hshort (by decide +kernel) 4), hexcerpt] at hlocate
  exact ⟨hsource, hspan, hlocate⟩

end LinkExpr
