import LinkExpr.Text.Position

/-!
# Source excerpts

An `Excerpt` shows one line of a source text with a highlighted range in it. Offsets that do not
fall on a place in the text are moved down to one, a tab takes up four columns, and a range that
runs over several lines is cut at the end of its first line.
-/

namespace LinkExpr

open Text

/-- One line of a source with the place where something is highlighted. Without a length a single
character is highlighted. -/
structure Excerpt where
  offset : Nat
  line : Nat
  column : Nat
  length? : Option Nat
  lineText : String
deriving DecidableEq, Repr

namespace Excerpt

/-- Tabs are shown as four spaces. -/
def expandTabs (cs : List Char) : List Char :=
  cs.flatMap fun c => if c = '\t' then [' ', ' ', ' ', ' '] else [c]

/-- The text after the last newline. -/
def lastLine (cs : List Char) : List Char :=
  (cs.reverse.takeWhile (· ≠ '\n')).reverse

/-- The text before the first newline. -/
def firstLine (cs : List Char) : List Char :=
  cs.takeWhile (· ≠ '\n')

/-- The excerpt around a byte offset, highlighting as many bytes as are given. -/
def make (source : String) (offset : Nat) (size? : Option Nat) : Excerpt :=
  let (before, after) := splitBelow source.toList offset
  let lineBefore := lastLine before
  let lineAfter := firstLine after
  { offset := byteSize before
    line := before.count '\n' + 1
    column := (expandTabs lineBefore).length + 1
    length? := size?.map fun size => max 1 (splitBelow lineAfter size).1.length
    lineText := String.ofList (expandTabs (lineBefore ++ lineAfter)) }

/-- The excerpt around a place, without a range. -/
def atOffset (source : String) (offset : Nat) : Excerpt :=
  make source offset none

/-- The excerpt that highlights a span; an empty span is highlighted as one byte. -/
def ofSpan (source : String) (span : Span) : Excerpt :=
  make source span.start.offset (some (max 1 span.size))

/-- The number of highlighted characters. -/
def length (e : Excerpt) : Nat := e.length?.getD 1

@[simp] theorem expandTabs_append (cs ds : List Char) :
    expandTabs (cs ++ ds) = expandTabs cs ++ expandTabs ds := by
  simp [expandTabs]

/-- A tab takes up three columns more than any other character. -/
theorem length_expandTabs (cs : List Char) :
    (expandTabs cs).length = cs.length + 3 * cs.count '\t' := by
  induction cs with
  | nil => rfl
  | cons c cs ih =>
      have h : expandTabs (c :: cs) = expandTabs [c] ++ expandTabs cs := by
        rw [← expandTabs_append]; rfl
      rw [h, List.length_append, ih, List.count_cons]
      by_cases hc : c = '\t' <;> simp [expandTabs, hc] <;> omega

end Excerpt

end LinkExpr
