import LinkExpr.Text.Offset

/-!
# Reading positions in YAML text

A cursor is what is left of a YAML text, with the place it begins at. Columns decide the structure
of block collections, lines and offsets where a simple key may end. Columns count characters and
offsets bytes. Besides the usual line breaks the format knows the next-line character and the line
and paragraph separators.
-/

namespace LinkExpr.Yaml

/-- A character that ends a line. -/
def isBreak (c : Char) : Bool :=
  c = '\r' || c = '\n' || c = '\u0085' || c = '\u2028' || c = '\u2029'

/-- A blank within a line. -/
def isBlank (c : Char) : Bool := c = ' ' || c = '\t'

/-- Blanks, line breaks and the end of the text. -/
def isGap : Option Char → Bool
  | none => true
  | some c => isBlank c || isBreak c

/-- Line breaks and the end of the text. -/
def isLineEnd : Option Char → Bool
  | none => true
  | some c => isBreak c

/-- A character of an anchor, a directive or the handle of a tag. -/
def isWordChar (c : Char) : Bool := c.isAlphanum || c = '_' || c = '-'

/-- The characters that may occur in a YAML text. -/
def isAllowed (c : Char) : Bool :=
  let n := c.toNat
  c = '\t' || c = '\n' || c = '\r' || (0x20 ≤ n && n ≤ 0x7E) || n = 0x85 ||
    (0xA0 ≤ n && n ≤ 0xD7FF) || (0xE000 ≤ n && n ≤ 0xFFFD) || 0x10000 ≤ n

/-- What is left of a text, and where it begins. -/
structure Cursor where
  rest : List Char
  /-- The number of bytes before the place. -/
  offset : Nat
  line : Nat
  column : Nat
deriving Repr

namespace Cursor

/-- The beginning of a text. -/
def ofText (cs : List Char) : Cursor := ⟨cs, 0, 0, 0⟩

/-- The character at a distance. -/
def peek (c : Cursor) (distance : Nat) : Option Char := c.rest[distance]?

/-- The next character. -/
def head? (c : Cursor) : Option Char := c.rest.head?

/-- Whether a given character comes next. -/
def at? (c : Cursor) (ch : Char) : Bool := c.head? == some ch

/-- Passes over characters of one line. -/
def skip (c : Cursor) (count : Nat) : Cursor :=
  { c with
    rest := c.rest.drop count
    offset := c.offset + Text.byteSize (c.rest.take count)
    column := c.column + count }

/-- Passes over a line break, if one comes next. -/
def skipLine (c : Cursor) : Cursor :=
  match c.rest with
  | '\r' :: '\n' :: rest => ⟨rest, c.offset + 2, c.line + 1, 0⟩
  | b :: rest => if isBreak b then ⟨rest, c.offset + b.utf8Size, c.line + 1, 0⟩ else c
  | [] => c

/-- What a line break contributes to a text: separators stay, all others become a newline. -/
def lineBreak (c : Cursor) : List Char :=
  match c.head? with
  | some b =>
      if b = '\u2028' || b = '\u2029' then [b] else if isBreak b then ['\n'] else []
  | none => []

/-- Takes characters of one line as long as they satisfy a condition. -/
def takeWhile (c : Cursor) (p : Char → Bool) : List Char × Cursor :=
  let taken := c.rest.takeWhile p
  (taken, c.skip taken.length)

/-- Passes over blanks. -/
def skipBlanks (c : Cursor) : Cursor := (c.takeWhile isBlank).2

/-- Passes over what is left of a line up to its break. -/
def skipToLineEnd (c : Cursor) : Cursor := (c.takeWhile fun ch => !isBreak ch).2

/-- Passes over blanks and a comment, and over the line break after them; nothing else may be left
in the line. -/
def finishLine? (c : Cursor) : Option Cursor :=
  let c := c.skipBlanks
  let c := if c.at? '#' then c.skipToLineEnd else c
  if isLineEnd c.head? then some c.skipLine else none

/-- Whether a line begins here with three given characters and a gap. -/
def atMarker (c : Cursor) (ch : Char) : Bool :=
  c.column == 0 && c.peek 0 == some ch && c.peek 1 == some ch && c.peek 2 == some ch &&
    isGap (c.peek 3)

/-- Whether the marker of a document's beginning or end stands here. -/
def atDocumentMarker (c : Cursor) : Bool := c.atMarker '-' || c.atMarker '.'

end Cursor

end LinkExpr.Yaml
