import LinkExpr.Yaml.Cursor
import LinkExpr.Json.Reader

/-!
# Scalars of YAML

The text of a scalar is written plain, between quotes, or as a block of lines. In the first two
forms line breaks are folded: a single one becomes a space, and of several all but the first stay.
A block keeps its line breaks, or folds them between lines that do not begin with a blank.

Every function takes the cursor before the scalar and answers its text and the cursor after it, or
nothing if the scalar is not well formed.
-/

namespace LinkExpr.Yaml

/-- What stands between two words of a scalar. -/
structure Gap where
  /-- The blanks, as long as no line break has been seen. -/
  blanks : List Char
  /-- Whether a line break has been seen. -/
  broken : Bool
  /-- The first line break. -/
  first : List Char
  /-- The line breaks after it. -/
  more : List Char

namespace Gap

/-- Nothing between two words. -/
def empty : Gap := ⟨[], false, [], []⟩

/-- What two words are joined by. -/
def text (g : Gap) : List Char :=
  if g.broken then
    if g.first.head? = some '\n' then (if g.more = [] then [' '] else g.more)
    else g.first ++ g.more
  else g.blanks

/-- Reads a gap. After a line break, a tab left of the given column is refused. -/
def read (column : Nat) : (fuel : Nat) → Gap → Cursor → Option (Gap × Cursor)
  | 0, _, _ => none
  | fuel + 1, g, c =>
      match c.head? with
      | none => some (g, c)
      | some ch =>
          if isBlank ch then
            if g.broken then
              if ch = '\t' && c.column < column then none
              else read column fuel g (c.skip 1)
            else read column fuel { g with blanks := g.blanks ++ [ch] } (c.skip 1)
          else if isBreak ch then
            if g.broken then
              read column fuel { g with more := g.more ++ c.lineBreak } c.skipLine
            else read column fuel { g with broken := true, first := c.lineBreak } c.skipLine
          else some (g, c)

end Gap

/-! ### Plain scalars -/

/-- A character that separates the parts of a flow collection. -/
def isFlowIndicator (c : Char) : Bool :=
  c = ',' || c = '[' || c = ']' || c = '\x7b' || c = '\x7d'

/-- The longest word of a plain scalar. A colon ends it if a gap follows; in a flow collection an
indicator ends it as well, and a colon right before one is refused. -/
def plainWord (flow : Bool) : List Char → Option (List Char)
  | [] => some []
  | c :: rest =>
      if isBlank c || isBreak c then some []
      else if flow && c = ':' && rest.head?.any (fun d => isFlowIndicator d || d = '?') then none
      else if c = ':' && isGap rest.head? || flow && isFlowIndicator c then some []
      else (plainWord flow rest).map (c :: ·)

/-- Reads a plain scalar word by word; also answers whether it ends with a line break. -/
def readPlainWords (flow : Bool) (column : Nat) : (fuel : Nat) → (text : List Char) → Gap →
    Cursor → Option (List Char × Bool × Cursor)
  | 0, _, _, _ => none
  | fuel + 1, text, gap, c => do
      if c.atDocumentMarker || c.at? '#' then return (text, gap.broken, c)
      let word ← plainWord flow c.rest
      let after := c.skip word.length
      let (text, gap) := if word = [] then (text, gap) else (text ++ gap.text ++ word, Gap.empty)
      if !isGap after.head? || after.rest = [] then return (text, gap.broken, after)
      let (gap, next) ← Gap.read column (after.rest.length + 1) gap after
      if !flow && next.column < column then return (text, gap.broken, next)
      readPlainWords flow column fuel text gap next

/-- Reads a plain scalar whose further lines have to begin at a column. -/
def readPlain (flow : Bool) (column : Nat) (c : Cursor) : Option (List Char × Bool × Cursor) :=
  readPlainWords flow column (c.rest.length + 1) [] Gap.empty c

/-! ### Quoted scalars -/

/-- The character that a letter stands for after a backslash. -/
def escapedChar? : Char → Option Char
  | '0' => some '\x00'
  | 'a' => some '\x07'
  | 'b' => some '\x08'
  | 't' | '\t' => some '\t'
  | 'n' => some '\n'
  | 'v' => some '\x0b'
  | 'f' => some '\x0c'
  | 'r' => some '\r'
  | 'e' => some '\x1b'
  | ' ' => some ' '
  | '"' => some '"'
  | '/' => some '/'
  | '\\' => some '\\'
  | 'N' => some '\u0085'
  | '_' => some '\u00a0'
  | 'L' => some '\u2028'
  | 'P' => some '\u2029'
  | _ => none

/-- The number of hexadecimal digits that a letter announces after a backslash. -/
def codeLength? : Char → Option Nat
  | 'x' => some 2
  | 'u' => some 4
  | 'U' => some 8
  | _ => none

/-- The character of a code in hexadecimal digits. -/
def charOfCode? (digits : List Char) (count : Nat) : Option Char := do
  if digits.length < count then none
  let values ← (digits.take count).mapM Json.hexValue?
  let code := values.foldl (fun n d => 16 * n + d) 0
  if code.isValidChar then some (Char.ofNat code) else none

/-- What a stretch of a quoted scalar without blanks ends with. -/
inductive WordEnd
  /-- A blank, a line break, the closing quote or the end of the text. -/
  | plain
  /-- A line break after a backslash. -/
  | escapedBreak

/-- Reads a word between single quotes, where a quote is written twice. -/
def singleQuotedWord : (fuel : Nat) → (text : List Char) → Cursor → List Char × Cursor
  | 0, text, c => (text, c)
  | fuel + 1, text, c =>
      match c.rest with
      | '\'' :: '\'' :: _ => singleQuotedWord fuel (text ++ ['\'']) (c.skip 2)
      | '\'' :: _ | [] => (text, c)
      | ch :: _ =>
          if isBlank ch || isBreak ch then (text, c)
          else singleQuotedWord fuel (text ++ [ch]) (c.skip 1)

/-- Reads a word between double quotes, where a backslash begins an escape. -/
def doubleQuotedWord : (fuel : Nat) → (text : List Char) → Cursor →
    Option (List Char × WordEnd × Cursor)
  | 0, _, _ => none
  | fuel + 1, text, c =>
      match c.rest with
      | '"' :: _ | [] => some (text, .plain, c)
      | '\\' :: letter :: digits =>
          if isBreak letter then some (text, .escapedBreak, (c.skip 1).skipLine)
          else match escapedChar? letter, codeLength? letter with
            | some ch, _ => doubleQuotedWord fuel (text ++ [ch]) (c.skip 2)
            | none, some count => do
                let ch ← charOfCode? digits count
                doubleQuotedWord fuel (text ++ [ch]) (c.skip (2 + count))
            | none, none => none
      | '\\' :: [] => none
      | ch :: _ =>
          if isBlank ch || isBreak ch then some (text, .plain, c)
          else doubleQuotedWord fuel (text ++ [ch]) (c.skip 1)

/-- Reads the words of a quoted scalar up to the closing quote. -/
def readQuotedWords (quote : Char) : (fuel : Nat) → (text : List Char) → Cursor →
    Option (List Char × Cursor)
  | 0, _, _ => none
  | fuel + 1, text, c => do
      if c.atDocumentMarker || c.rest = [] then none
      let (text, ending, c) ←
        if quote = '\'' then
          let (text, c) := singleQuotedWord (c.rest.length + 1) text c
          some (text, WordEnd.plain, c)
        else doubleQuotedWord (c.rest.length + 1) text c
      if c.at? quote then return (text, c.skip 1)
      let broken := match ending with
        | .plain => false
        | .escapedBreak => true
      let (gap, c) ← Gap.read 0 (c.rest.length + 1) { Gap.empty with broken } c
      readQuotedWords quote fuel (text ++ gap.text) c

/-- Reads a quoted scalar from its opening quote on. -/
def readQuoted (quote : Char) (c : Cursor) : Option (List Char × Cursor) :=
  readQuotedWords quote (c.rest.length + 1) [] (c.skip 1)

/-! ### Block scalars -/

/-- What becomes of the line breaks at the end of a block. -/
inductive Chomping
  /-- None is kept. -/
  | strip
  /-- The first is kept. -/
  | clip
  /-- All are kept. -/
  | keep

/-- Reads the header of a block: how its end is treated, and how far it is indented, each if it is
given, in any order. -/
def blockHeader (c : Cursor) : Option (Chomping × Option Nat × Cursor) :=
  let chomping (c : Cursor) : Option (Chomping × Cursor) :=
    if c.at? '+' then some (.keep, c.skip 1)
    else if c.at? '-' then some (.strip, c.skip 1)
    else none
  let digit (c : Cursor) : Option (Option Nat × Cursor) :=
    match c.head? with
    | some d =>
        if d = '0' then none
        else if d.isDigit then some (some (d.toNat - '0'.toNat), c.skip 1)
        else some (none, c)
    | none => some (none, c)
  match chomping c with
  | some (how, c) => (digit c).map fun (indent, c) => (how, indent, c)
  | none =>
      (digit c).map fun (indent, c) =>
        match indent, chomping c with
        | some _, some (how, c) => (how, indent, c)
        | _, _ => (.clip, indent, c)

/-- Reads the indentation and the empty lines before a line of a block. As long as the indentation
is not known, it is the deepest one seen. -/
def blockBreaks (indent : Option Nat) : (fuel : Nat) → (deepest : Nat) → (breaks : List Char) →
    Cursor → Option (Nat × List Char × Cursor)
  | 0, _, _, _ => none
  | fuel + 1, deepest, breaks, c =>
      let spaces := (c.rest.takeWhile (· = ' ')).length
      let count := match indent with
        | some column => min spaces (column - c.column)
        | none => spaces
      let c := c.skip count
      let deepest := max deepest c.column
      let indenting := match indent with
        | some column => c.column < column
        | none => true
      if indenting && c.at? '\t' then none
      else if c.head?.any isBreak then
        blockBreaks indent fuel deepest (breaks ++ c.lineBreak) c.skipLine
      else some (deepest, breaks, c)

/-- Reads the lines of a block that begin at its indentation. The line break before a line is folded
unless the line or the one before begins with a blank. -/
def blockLines (literal : Bool) (column : Nat) : (fuel : Nat) → (text first more : List Char) →
    (afterBlank : Bool) → Cursor → Option (List Char × List Char × List Char × Cursor)
  | 0, _, _, _, _, _ => none
  | fuel + 1, text, first, more, afterBlank, c => do
      if c.column ≠ column || c.rest = [] then return (text, first, more, c)
      let blank := c.head?.any isBlank
      let joint :=
        if !literal && first.head? = some '\n' && !afterBlank && !blank then
          if more = [] then [' '] else []
        else first
      let (line, c) := c.takeWhile fun ch => !isBreak ch
      let (_, more', c') ← blockBreaks (some column) (c.rest.length + 1) 0 [] c.skipLine
      blockLines literal column fuel (text ++ joint ++ more ++ line) c.lineBreak more' blank c'

/-- Reads a block from its indicator on, where the enclosing collection is indented to a column, or
to none. -/
def readBlock (literal : Bool) (parent : Int) (c : Cursor) : Option (List Char × Cursor) := do
  let (chomping, increment, c) ← blockHeader (c.skip 1)
  let c ← c.finishLine?
  let indent := increment.map fun (n : Nat) => if 0 ≤ parent then parent.toNat + n else n
  let (deepest, more, c) ← blockBreaks indent (c.rest.length + 1) 0 [] c
  let column := indent.getD (max deepest (max (parent + 1).toNat 1))
  let (text, first, more, c) ←
    blockLines literal column (c.rest.length + 1) [] [] more false c
  return (match chomping with
    | .strip => text
    | .clip => text ++ first
    | .keep => text ++ first ++ more, c)

end LinkExpr.Yaml
