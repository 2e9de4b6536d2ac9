import LinkExpr.Yaml.Cursor
import LinkExpr.Json.Reader

/-!
# Tags of YAML

A tag says what a node stands for. It is a sequence of bytes, which need not be the encoding of a
text, and it ends before the first zero among the bytes that spell it. It is written in ASCII: a
percent sign with two hexadecimal digits spells a byte, and every other character its own code.

The bytes of an escaped character are checked as far as their leading bits tell how many there are;
that they encode a character is asked only of a tag that names something, by `Tag.name?`.
-/

namespace LinkExpr.Yaml

/-- A sequence of bytes other than zero. -/
structure Tag where
  bytes : List UInt8
  zero_notMem : 0 ∉ bytes
deriving DecidableEq, Repr

namespace Tag

@[ext] theorem ext {s t : Tag} (h : s.bytes = t.bytes) : s = t := by
  cases s; cases t; cases h; rfl

/-- The tag that bytes spell: what comes before the first zero. -/
def ofBytes (bytes : List UInt8) : Tag where
  bytes := bytes.takeWhile (· ≠ 0)
  zero_notMem h := by
    have := List.all_eq_true.1 (List.all_takeWhile (l := bytes) (p := (· ≠ 0))) 0 h
    simp at this

/-- The tag that a text spells. -/
def ofText (text : String) : Tag := ofBytes text.toUTF8.toList

instance : Append Tag where
  append s t :=
    ⟨s.bytes ++ t.bytes, fun h => (List.mem_append.1 h).elim s.zero_notMem t.zero_notMem⟩

/-- Whether a tag has no bytes. -/
def isEmpty (t : Tag) : Bool := t.bytes = []

/-- A single exclamation mark, which leaves open what a node stands for. -/
def nonSpecific : Tag := ofText "!"

/-- The tag of null. -/
def null : Tag := ofText "tag:yaml.org,2002:null"

/-- The name in a tag of its own: what follows its exclamation mark, or the mark itself. Bytes that
encode no text are not a name. -/
def name? (t : Tag) : Option String :=
  match t.bytes with
  | [] => none
  | first :: rest =>
      if first ≠ '!'.toUInt8 then none
      else if rest = [] then some "!"
      else String.fromUTF8? rest.toByteArray

end Tag

/-! ### Reading -/

/-- A character of a tag; verbatim tags and directives also admit the separators of lists. -/
def isTagChar (verbatim : Bool) (c : Char) : Bool :=
  isWordChar c || [';', '/', '?', ':', '@', '&', '=', '+', '$', '.', '!', '~', '*', '\'', '(', ')',
    '%'].contains c || verbatim && [',', '[', ']'].contains c

/-- Reads a byte that is written as a percent sign and two hexadecimal digits. -/
def readEscapedByte : List Char → Option (UInt8 × List Char)
  | '%' :: a :: b :: rest => do
      return (UInt8.ofNat ((← Json.hexValue? a) * 16 + (← Json.hexValue? b)), rest)
  | _ => none

/-- The number of bytes that follow the first one of a character, as its leading bits tell. -/
def continuationLength? (first : UInt8) : Option Nat :=
  if first < 0x80 then some 0
  else if first / 32 = 6 then some 1
  else if first / 16 = 14 then some 2
  else if first / 8 = 30 then some 3
  else none

/-- Reads a number of escaped bytes, all of which have to continue a character. -/
def readContinuation : (count : Nat) → List Char → Option (List UInt8 × List Char)
  | 0, cs => some ([], cs)
  | count + 1, cs => do
      let (byte, cs) ← readEscapedByte cs
      if byte / 64 ≠ 2 then none
      let (bytes, cs) ← readContinuation count cs
      return (byte :: bytes, cs)

/-- Reads the escaped bytes of one character. -/
def readEscapedChar (cs : List Char) : Option (List UInt8 × List Char) := do
  let (first, cs) ← readEscapedByte cs
  let (bytes, cs) ← readContinuation (← continuationLength? first) cs
  return (first :: bytes, cs)

/-- Reads the longest run of tag characters as the bytes that they spell. -/
def readTagBytes (verbatim : Bool) : (fuel : Nat) → Cursor → Option (List UInt8 × Cursor)
  | 0, _ => none
  | fuel + 1, c =>
      match c.rest with
      | '%' :: _ => do
          let (char, rest) ← readEscapedChar c.rest
          let (bytes, c) ← readTagBytes verbatim fuel (c.skip (c.rest.length - rest.length))
          return (char ++ bytes, c)
      | ch :: _ =>
          if isTagChar verbatim ch then do
            let (bytes, c) ← readTagBytes verbatim fuel (c.skip 1)
            return (ch.toUInt8 :: bytes, c)
          else some ([], c)
      | [] => some ([], c)

/-- Reads a handle: an exclamation mark, a word, and another exclamation mark if there is one. -/
def readHandle (c : Cursor) : Option (List Char × Cursor) :=
  if c.at? '!' then
    let (word, c) := (c.skip 1).takeWhile isWordChar
    if c.at? '!' then some ('!' :: (word ++ ['!']), c.skip 1) else some ('!' :: word, c)
  else none

/-- Whether a handle is closed by a second exclamation mark. -/
def isClosedHandle (handle : List Char) : Bool :=
  handle.length ≥ 2 && handle.getLast? == some '!'

end LinkExpr.Yaml
