import LinkExpr.Yaml.Scalar
import LinkExpr.Yaml.Tag

/-!
# Tokens of YAML

The tokens of a text make its structure explicit: where block collections begin and end follows
from the columns of their entries. A simple key shows itself only by the colon after it. Until that
colon is seen, or cannot come any more, the place of the key among the tokens is remembered, and
then the token of the key, and possibly of a block mapping, is inserted there.
-/

namespace LinkExpr.Yaml

/-- A token of a YAML text. -/
inductive Token
  | versionDirective (major minor : Nat)
  | tagDirective (handle : List Char) (expansion : Tag)
  | documentStart
  | documentEnd
  | blockSequenceStart
  | blockMappingStart
  | blockEnd
  | flowSequenceStart
  | flowSequenceEnd
  | flowMappingStart
  | flowMappingEnd
  | blockEntry
  | flowEntry
  | key
  | value
  | reference (name : List Char)
  | anchor (name : List Char)
  | tag (handle : List Char) (suffix : Tag)
  | scalar (text : List Char) (plain : Bool)
deriving DecidableEq, Repr

/-! ### Tags, anchors and directives -/

/-- Reads a tag: in angle brackets, with a closed handle, or with a suffix only. Without any bytes
it is a single exclamation mark, which no directive expands. -/
def readTag (flow : Bool) (c : Cursor) : Option (Token × Cursor) := do
  let (handle, suffix, c) ←
    if c.peek 1 == some '<' then do
      let (bytes, c) ← readTagBytes true (c.rest.length + 1) (c.skip 2)
      if bytes = [] || !c.at? '>' then none
      else some ([], Tag.ofBytes bytes, c.skip 1)
    else do
      let (handle, c) ← readHandle c
      let (bytes, c) ← readTagBytes false (c.rest.length + 1) c
      if isClosedHandle handle then
        if bytes = [] then none else some (handle, Tag.ofBytes bytes, c)
      else
        let suffix := Tag.ofBytes ((handle.drop 1).map Char.toUInt8 ++ bytes)
        if suffix.isEmpty then some ([], Tag.nonSpecific, c) else some (['!'], suffix, c)
  if isGap c.head? || flow && c.at? ',' then return (.tag handle suffix, c) else none

/-- Reads the name of an anchor or alias after its indicator. -/
def readAnchorName (c : Cursor) : Option (List Char × Cursor) :=
  let (name, c) := (c.skip 1).takeWhile isWordChar
  let ended := match c.head? with
    | some ch => isGap (some ch) || ['?', ':', ',', ']', '\x7d', '%', '@', '`'].contains ch
    | none => true
  if name ≠ [] && ended then some (name, c) else none

/-- Reads a number of a version, of at most nine digits. -/
def readVersionNumber (c : Cursor) : Option (Nat × Cursor) :=
  let (digits, c) := c.takeWhile Char.isDigit
  if digits ≠ [] && digits.length ≤ 9 then some (Numeral.natOfDigits digits, c) else none

/-- Reads a directive with the rest of its line. -/
def readDirective (c : Cursor) : Option (Token × Cursor) := do
  let (name, c) := (c.skip 1).takeWhile isWordChar
  if !isGap c.head? then none
  let (token, c) ←
    if name = ['Y', 'A', 'M', 'L'] then do
      let (major, c) ← readVersionNumber c.skipBlanks
      if !c.at? '.' then none
      let (minor, c) ← readVersionNumber (c.skip 1)
      some (Token.versionDirective major minor, c)
    else if name = ['T', 'A', 'G'] then do
      let (handle, c) ← readHandle c.skipBlanks
      if !(isClosedHandle handle || handle = ['!']) || !c.head?.any isBlank then none
      let (bytes, c) ← readTagBytes true (c.rest.length + 1) c.skipBlanks
      if bytes = [] || !isGap c.head? then none
      some (Token.tagDirective handle (.ofBytes bytes), c)
    else none
  return (token, ← c.finishLine?)

/-! ### The scanner -/

/-- A place where a simple key may begin. -/
structure SimpleKey where
  /-- The number of tokens before it. -/
  token : Nat
  /-- Whether nothing but a key may stand here. -/
  required : Bool
  offset : Nat
  line : Nat
  column : Nat

/-- The state of reading tokens. -/
structure Scanner where
  cursor : Cursor
  tokens : Array Token
  /-- The column of the innermost block collection; below zero if there is none. -/
  indent : Int
  /-- The columns of the enclosing block collections. -/
  outer : List Int
  /-- The possible simple keys, one for every open flow collection and one for the text around
  them. -/
  keys : List (Option SimpleKey)
  /-- Whether a simple key may begin here. -/
  keyAllowed : Bool

namespace Scanner

/-- The state before a text. -/
def ofText (cs : List Char) : Scanner := ⟨.ofText cs, #[], -1, [], [none], true⟩

/-- Whether a flow collection is open. -/
def inFlow (s : Scanner) : Bool := s.keys.length > 1

/-- Adds a token that takes up some characters. -/
def emit (s : Scanner) (token : Token) (size : Nat) : Scanner :=
  { s with tokens := s.tokens.push token, cursor := s.cursor.skip size }

/-- Inserts a token before others. -/
def insertToken (tokens : Array Token) (place : Nat) (token : Token) : Array Token :=
  (tokens.extract 0 place).push token ++ tokens.extract place tokens.size

/-- Opens a block collection at a column that is deeper than the innermost one, with its token at a
place among the tokens. -/
def openBlock (s : Scanner) (column place : Nat) (token : Token) : Scanner :=
  if !s.inFlow && s.indent < column then
    { s with
      outer := s.indent :: s.outer
      indent := column
      tokens := insertToken s.tokens place token }
  else s

/-- Closes the block collections that are deeper than a column. -/
def closeBlocksTo (column : Int) : (indent : Int) → (outer : List Int) → Array Token →
    Int × List Int × Array Token
  | indent, [], tokens => (indent, [], tokens)
  | indent, next :: outer, tokens =>
      if column < indent then closeBlocksTo column next outer (tokens.push .blockEnd)
      else (indent, next :: outer, tokens)

/-- Closes the block collections that are deeper than a column, unless a flow collection is open. -/
def closeBlocks (s : Scanner) (column : Int) : Scanner :=
  if s.inFlow then s
  else
    let (indent, outer, tokens) := closeBlocksTo column s.indent s.outer s.tokens
    { s with indent, outer, tokens }

/-- Gives up possible keys that end on an earlier line or are longer than 1024 bytes; a
required key cannot be given up. -/
def dropStaleKeys (s : Scanner) : Option Scanner := do
  let keys ← s.keys.mapM fun key? =>
    match key? with
    | some key =>
        if key.line < s.cursor.line || key.offset + 1024 < s.cursor.offset then
          if key.required then none else some none
        else some (some key)
    | none => some none
  return { s with keys }

/-- Gives up the innermost possible key. -/
def dropKey (s : Scanner) : Option Scanner :=
  match s.keys with
  | some key :: keys => if key.required then none else some { s with keys := none :: keys }
  | _ => some s

/-- Remembers that a simple key may begin here. -/
def saveKey (s : Scanner) : Option Scanner := do
  if s.keyAllowed then
    let key : SimpleKey :=
      { token := s.tokens.size
        required := !s.inFlow && s.indent == s.cursor.column
        offset := s.cursor.offset
        line := s.cursor.line
        column := s.cursor.column }
    let s ← s.dropKey
    return { s with keys := some key :: s.keys.drop 1 }
  else return s

/-- Passes over blanks, comments and line breaks. Tabs count as blanks unless a simple key may
begin; outside flow collections a new line allows one. -/
def skipToToken (flow : Bool) : (fuel : Nat) → (keyAllowed : Bool) → Cursor → Bool × Cursor
  | 0, keyAllowed, c => (keyAllowed, c)
  | fuel + 1, keyAllowed, c =>
      let c := if c.column == 0 && c.at? '\ufeff' then c.skip 1 else c
      let c := (c.takeWhile fun ch => ch = ' ' || ch = '\t' && (flow || !keyAllowed)).2
      let c := if c.at? '#' then c.skipToLineEnd else c
      if c.head?.any isBreak then skipToToken flow fuel (keyAllowed || !flow) c.skipLine
      else (keyAllowed, c)

/-- Continues behind a token that has been read. -/
def continueAt (s : Scanner) (token : Token) (cursor : Cursor) : Scanner :=
  { s with tokens := s.tokens.push token, cursor }

/-- Reads a token before which no block collection and no simple key can be open. -/
def readTopLevel (s : Scanner) (read : Cursor → Option (Token × Cursor)) : Option Scanner := do
  let s ← (s.closeBlocks (-1)).dropKey
  let (token, cursor) ← read s.cursor
  return { s.continueAt token cursor with keyAllowed := false }

/-- Reads an entry of a block sequence. -/
def readBlockEntry (s : Scanner) : Option Scanner := do
  if !s.inFlow && !s.keyAllowed then none
  let s ← (s.openBlock s.cursor.column s.tokens.size .blockSequenceStart).dropKey
  return { s.emit .blockEntry 1 with keyAllowed := true }

/-- Reads the indicator of a key that is not simple. -/
def readKey (s : Scanner) : Option Scanner := do
  if !s.inFlow && !s.keyAllowed then none
  let s ← (s.openBlock s.cursor.column s.tokens.size .blockMappingStart).dropKey
  return { s.emit .key 1 with keyAllowed := !s.inFlow }

/-- Reads the colon between a key and its value. -/
def readValue (s : Scanner) : Option Scanner :=
  match s.keys with
  | some key :: keys =>
      let s := { s with tokens := insertToken s.tokens key.token .key, keys := none :: keys }
      let s := s.openBlock key.column key.token .blockMappingStart
      some { s.emit .value 1 with keyAllowed := false }
  | _ =>
      if !s.inFlow && !s.keyAllowed then none
      else
        let s := s.openBlock s.cursor.column s.tokens.size .blockMappingStart
        some { s.emit .value 1 with keyAllowed := !s.inFlow }

/-- Reads a token that may be a simple key. -/
def readKeyToken (s : Scanner) (read : Cursor → Option (Token × Cursor)) : Option Scanner := do
  let s ← s.saveKey
  let (token, cursor) ← read s.cursor
  return { s.continueAt token cursor with keyAllowed := false }

/-- Reads a plain scalar. If it ends with a line break, a simple key may follow. -/
def readPlainToken (s : Scanner) : Option Scanner := do
  let s ← s.saveKey
  let (text, broken, cursor) ← readPlain s.inFlow (s.indent + 1).toNat s.cursor
  return { s.continueAt (.scalar text true) cursor with keyAllowed := broken }

/-- Reads the beginning of a flow collection. -/
def readFlowStart (s : Scanner) (token : Token) : Option Scanner := do
  let s ← s.saveKey
  return { s.emit token 1 with keys := none :: s.keys, keyAllowed := true }

/-- Reads the end of a flow collection. -/
def readFlowEnd (s : Scanner) (token : Token) : Option Scanner := do
  let s ← s.dropKey
  let keys := if s.inFlow then s.keys.drop 1 else s.keys
  return { s.emit token 1 with keys, keyAllowed := false }

/-- Characters that cannot begin a plain scalar. -/
def isIndicator (c : Char) : Bool :=
  ['-', '?', ':', ',', '[', ']', '\x7b', '\x7d', '#', '&', '*', '!', '|', '>', '\'', '"', '%', '@',
    '`'].contains c

/-- Whether a plain scalar can begin with a character, given the one after it. -/
def beginsPlain (flow : Bool) (c : Char) (next : Option Char) : Bool :=
  !(isBlank c || isBreak c || isIndicator c) || c = '-' && !next.any isBlank ||
    !flow && (c = '?' || c = ':') && !isGap next

/-- Reads the token that begins with a character. -/
def readTokenAt (s : Scanner) (ch : Char) : Option Scanner :=
  let c := s.cursor
  let flow := s.inFlow
  let next := c.peek 1
  if c.column == 0 && ch = '%' then s.readTopLevel readDirective
  else if c.atMarker '-' then s.readTopLevel fun c => some (.documentStart, c.skip 3)
  else if c.atMarker '.' then s.readTopLevel fun c => some (.documentEnd, c.skip 3)
  else if ch = '[' then s.readFlowStart .flowSequenceStart
  else if ch = '\x7b' then s.readFlowStart .flowMappingStart
  else if ch = ']' then s.readFlowEnd .flowSequenceEnd
  else if ch = '\x7d' then s.readFlowEnd .flowMappingEnd
  else if ch = ',' then s.dropKey.map fun s => { s.emit .flowEntry 1 with keyAllowed := true }
  else if ch = '-' && isGap next then s.readBlockEntry
  else if ch = '?' && (flow || isGap next) then s.readKey
  else if ch = ':' && (flow || isGap next) then s.readValue
  else if ch = '*' then
    s.readKeyToken fun c => (readAnchorName c).map fun (name, c) => (.reference name, c)
  else if ch = '&' then
    s.readKeyToken fun c => (readAnchorName c).map fun (name, c) => (.anchor name, c)
  else if ch = '!' then s.readKeyToken (readTag flow)
  else if (ch = '|' || ch = '>') && !flow then do
    let s ← s.dropKey
    let (text, cursor) ← readBlock (ch = '|') s.indent s.cursor
    return { s.continueAt (.scalar text false) cursor with keyAllowed := true }
  else if ch = '\'' || ch = '"' then
    s.readKeyToken fun c => (readQuoted ch c).map fun (text, c) => (.scalar text false, c)
  else if beginsPlain flow ch next then s.readPlainToken
  else none

/-- Reads all tokens. -/
def readAll : (fuel : Nat) → Scanner → Option (List Token)
  | 0, _ => none
  | fuel + 1, s => do
      let (keyAllowed, cursor) :=
        skipToToken s.inFlow (s.cursor.rest.length + 1) s.keyAllowed s.cursor
      let s ← { s with keyAllowed, cursor }.dropStaleKeys
      let s := s.closeBlocks s.cursor.column
      match s.cursor.head? with
      | some ch => readAll fuel (← s.readTokenAt ch)
      | none =>
          let s ← (s.closeBlocks (-1)).dropKey
          return s.tokens.toList

end Scanner

/-- The tokens of a text. Every token takes up a character, so that one step for each is enough. -/
def Token.ofText? (text : String) : Option (List Token) :=
  let cs := text.toList
  if cs.all isAllowed then Scanner.readAll (cs.length + 2) (.ofText cs) else none

end LinkExpr.Yaml
