import LinkExpr.Json.Basic
import LinkExpr.Numeral

/-!
# Reading JSON

A text is read if it is one value with blanks around it. Only the four blanks of the format count,
there are no comments and no trailing commas. An escape that spells half of a surrogate pair is
allowed as long as nobody needs the text it is in; such a value is `unreadable`.
-/

namespace LinkExpr.Json

/-- The blanks of the format. -/
def isBlank (c : Char) : Bool := c = ' ' || c = '\n' || c = '\t' || c = '\r'

/-- Passes over blanks. -/
def skipBlanks (cs : List Char) : List Char := cs.dropWhile isBlank

/-! ### Text -/

/-- What an escaped or plain character of a text stands for. -/
inductive Part
  | char (c : Char)
  /-- Half of a surrogate pair. -/
  | surrogate (code : Nat)
deriving DecidableEq, Repr

/-- The value of a hexadecimal digit. -/
def hexValue? (c : Char) : Option Nat :=
  if c.isDigit then some (c.toNat - '0'.toNat)
  else if 'a' ≤ c ∧ c ≤ 'f' then some (c.toNat - 'a'.toNat + 10)
  else if 'A' ≤ c ∧ c ≤ 'F' then some (c.toNat - 'A'.toNat + 10)
  else none

/-- The part that a code of four hexadecimal digits stands for. -/
def partOfCode (code : Nat) : Part :=
  if 0xD800 ≤ code ∧ code ≤ 0xDFFF then .surrogate code else .char (Char.ofNat code)

/-- The character that a letter stands for after a backslash. -/
def simpleEscape? : Char → Option Char
  | '"' => some '"'
  | '\\' => some '\\'
  | '/' => some '/'
  | 'b' => some '\x08'
  | 'f' => some '\x0c'
  | 'n' => some '\n'
  | 'r' => some '\r'
  | 't' => some '\t'
  | _ => none

/-- Reads a text up to its closing quote. -/
def readParts : List Char → Option (List Part × List Char)
  | [] => none
  | '"' :: rest => some ([], rest)
  | '\\' :: 'u' :: a :: b :: c :: d :: rest => do
      let code := (← hexValue? a) * 4096 + (← hexValue? b) * 256 + (← hexValue? c) * 16
        + (← hexValue? d)
      let (parts, rest) ← readParts rest
      return (partOfCode code :: parts, rest)
  | '\\' :: letter :: rest => do
      let c ← simpleEscape? letter
      let (parts, rest) ← readParts rest
      return (.char c :: parts, rest)
  | c :: rest =>
      if c.toNat < 0x20 then none
      else do
        let (parts, rest) ← readParts rest
        return (.char c :: parts, rest)

/-- Joins surrogate pairs; `none` if a half is left over. -/
def joinParts : List Part → Option (List Char)
  | [] => some []
  | .char c :: rest => (joinParts rest).map (c :: ·)
  | .surrogate high :: .surrogate low :: rest =>
      if high < 0xDC00 ∧ 0xDC00 ≤ low then
        (joinParts rest).map (Char.ofNat (0x10000 + (high - 0xD800) * 0x400 + (low - 0xDC00)) :: ·)
      else none
  | .surrogate _ :: _ => none

/-- Reads a text after its opening quote; the text is missing if it cannot be joined. -/
def readText (cs : List Char) : Option (Option String × List Char) :=
  (readParts cs).map fun (parts, rest) => ((joinParts parts).map String.ofList, rest)

/-! ### Numbers -/

/-- Takes digits off a text; there has to be one. -/
def takeDigits? (cs : List Char) : Option (List Char × List Char) :=
  match cs.takeWhile Char.isDigit with
  | [] => none
  | digits => some (digits, cs.dropWhile Char.isDigit)

/-- Takes the whole part off a number: a zero, or digits that do not begin with one. -/
def takeWhole? : List Char → Option (List Char × List Char)
  | '0' :: rest => some (['0'], rest)
  | cs => takeDigits? cs

/-- Takes a fraction off a number, if a point comes first. -/
def takeFraction? : List Char → Option (List Char × List Char)
  | '.' :: rest => (takeDigits? rest).map fun (digits, rest) => ('.' :: digits, rest)
  | cs => some ([], cs)

/-- Takes an exponent off a number, if its marker comes first. -/
def takeExponent? : List Char → Option (List Char × List Char)
  | [] => some ([], [])
  | marker :: rest =>
      if marker = 'e' ∨ marker = 'E' then
        let (sign, rest) := match rest with
          | '-' :: rest => (['-'], rest)
          | '+' :: rest => (['+'], rest)
          | rest => ([], rest)
        (takeDigits? rest).map fun (digits, rest) => (marker :: (sign ++ digits), rest)
      else some ([], marker :: rest)

/-- Reads a number. -/
def readNumber (cs : List Char) : Option (Json × List Char) := do
  let (sign, cs) := match cs with
    | '-' :: rest => (['-'], rest)
    | cs => ([], cs)
  let (whole, cs) ← takeWhole? cs
  let (fraction, cs) ← takeFraction? cs
  let (exponent, cs) ← takeExponent? cs
  if sign = [] ∧ fraction = [] ∧ exponent = [] then
    return (.natural (Numeral.natOfDigits whole), cs)
  else return (.number (String.ofList (sign ++ whole ++ fraction ++ exponent)), cs)

/-! ### Values -/

/-- A text as a value. -/
def ofRead : Option String → Json
  | some text => .string text
  | none => .unreadable

/-- An object of members whose keys may be unreadable; one such key makes the object unreadable. -/
def ofMembers (members : List (Option String × Json)) : Json :=
  match members.mapM fun (key?, value) => key?.map fun key => (key, value) with
  | some members => .object members
  | none => .unreadable

mutual

/-- Reads a value with blanks before it. The fuel bounds the number of steps. -/
def readValue : (fuel : Nat) → List Char → Option (Json × List Char)
  | 0, _ => none
  | fuel + 1, cs =>
      match skipBlanks cs with
      | 'n' :: 'u' :: 'l' :: 'l' :: rest => some (.null, rest)
      | 't' :: 'r' :: 'u' :: 'e' :: rest => some (.bool true, rest)
      | 'f' :: 'a' :: 'l' :: 's' :: 'e' :: rest => some (.bool false, rest)
      | '"' :: rest => (readText rest).map fun (text?, rest) => (ofRead text?, rest)
      | '[' :: rest =>
          match skipBlanks rest with
          | ']' :: rest => some (.array [], rest)
          | rest => (readItems fuel rest).map fun (items, rest) => (.array items, rest)
      | '\x7b' :: rest =>
          match skipBlanks rest with
          | '\x7d' :: rest => some (.object [], rest)
          | rest => (readMembers fuel rest).map fun (members, rest) => (ofMembers members, rest)
      | rest => readNumber rest

/-- Reads the items of an array up to its end. -/
def readItems : (fuel : Nat) → List Char → Option (List Json × List Char)
  | 0, _ => none
  | fuel + 1, cs => do
      let (item, rest) ← readValue fuel cs
      match skipBlanks rest with
      | ',' :: rest =>
          let (items, rest) ← readItems fuel rest
          return (item :: items, rest)
      | ']' :: rest => return ([item], rest)
      | _ => none

/-- Reads the members of an object up to its end. -/
def readMembers : (fuel : Nat) → List Char → Option (List (Option String × Json) × List Char)
  | 0, _ => none
  | fuel + 1, cs =>
      match skipBlanks cs with
      | '"' :: rest => do
          let (key?, rest) ← readText rest
          match skipBlanks rest with
          | ':' :: rest =>
              let (value, rest) ← readValue fuel rest
              match skipBlanks rest with
              | ',' :: rest =>
                  let (members, rest) ← readMembers fuel rest
                  return ((key?, value) :: members, rest)
              | '\x7d' :: rest => return ([(key?, value)], rest)
              | _ => none
          | _ => none
      | _ => none

end

/-- Reads a text as one value. Every step passes over a character, or goes from an array or object
to its first part, so that two steps for each character are enough. -/
def parse? (text : String) : Option Json := do
  let cs := text.toList
  let (value, rest) ← readValue (2 * cs.length + 2) cs
  match skipBlanks rest with
  | [] => return value
  | _ => none

end LinkExpr.Json
