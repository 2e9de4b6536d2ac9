import LinkExpr.Json.Basic
import LinkExpr.Text.Quoted

/-!
# Writing JSON

A value is written either on one line without spaces, or with every item on a line of its own and
two spaces for each level. Text is quoted with the short escapes where there are any; other control
characters are given by their code, and everything else stands as it is.
-/

namespace LinkExpr.Json

open Text

/-- A character as it is written between quotes. -/
def escapeChar (c : Char) : List Char :=
  match c with
  | '"' => ['\\', '"']
  | '\\' => ['\\', '\\']
  | '\n' => ['\\', 'n']
  | '\r' => ['\\', 'r']
  | '\t' => ['\\', 't']
  | '\x08' => ['\\', 'b']
  | '\x0c' => ['\\', 'f']
  | _ =>
      if c.toNat < 0x20 then
        ['\\', 'u', '0', '0', hexDigit (c.toNat / 16), hexDigit (c.toNat % 16)]
      else [c]

/-- A text between quotes. -/
def quote (text : String) : List Char :=
  '"' :: (text.toList.flatMap escapeChar ++ ['"'])

/-- A value without parts. -/
def scalar : Json → List Char
  | .null | .unreadable => ['n', 'u', 'l', 'l']
  | .bool true => ['t', 'r', 'u', 'e']
  | .bool false => ['f', 'a', 'l', 's', 'e']
  | .natural n => (toString n).toList
  | .number numeral => numeral.toList
  | .string text => quote text
  | .array _ => ['[', ']']
  | .object _ => ['\x7b', '\x7d']

mutual

/-- A value on one line. -/
def compact : Json → List Char
  | .array (item :: items) => '[' :: (compact item ++ compactItems items)
  | .object ((key, value) :: members) =>
      '\x7b' :: (quote key ++ ':' :: (compact value ++ compactMembers members))
  | .array [] => ['[', ']']
  | .object [] => ['\x7b', '\x7d']
  | .null => scalar .null
  | .bool b => scalar (.bool b)
  | .natural n => scalar (.natural n)
  | .number numeral => scalar (.number numeral)
  | .string text => scalar (.string text)
  | .unreadable => scalar .unreadable

/-- The items after the first one, and the end of the array. -/
def compactItems : List Json → List Char
  | [] => [']']
  | item :: items => ',' :: (compact item ++ compactItems items)

/-- The members after the first one, and the end of the object. -/
def compactMembers : List (String × Json) → List Char
  | [] => ['\x7d']
  | (key, value) :: members =>
      ',' :: (quote key ++ ':' :: (compact value ++ compactMembers members))

end

/-- A new line at a level. -/
def newline (level : Nat) : List Char := '\n' :: List.replicate (2 * level) ' '

mutual

/-- A value over several lines, the first of which begins at a level. -/
def pretty (level : Nat) : Json → List Char
  | .array (item :: items) =>
      '[' :: (newline (level + 1) ++ pretty (level + 1) item ++ prettyItems level items)
  | .object ((key, value) :: members) =>
      '\x7b' :: (newline (level + 1) ++ quote key ++ ':' :: ' ' :: pretty (level + 1) value ++
        prettyMembers level members)
  | .array [] => ['[', ']']
  | .object [] => ['\x7b', '\x7d']
  | .null => scalar .null
  | .bool b => scalar (.bool b)
  | .natural n => scalar (.natural n)
  | .number numeral => scalar (.number numeral)
  | .string text => scalar (.string text)
  | .unreadable => scalar .unreadable

/-- The items after the first one, and the end of the array. -/
def prettyItems (level : Nat) : List Json → List Char
  | [] => newline level ++ [']']
  | item :: items =>
      ',' :: (newline (level + 1) ++ pretty (level + 1) item ++ prettyItems level items)

/-- The members after the first one, and the end of the object. -/
def prettyMembers (level : Nat) : List (String × Json) → List Char
  | [] => newline level ++ ['\x7d']
  | (key, value) :: members =>
      ',' :: (newline (level + 1) ++ quote key ++ ':' :: ' ' :: pretty (level + 1) value ++
        prettyMembers level members)

end

/-- A value on one line. -/
def render (j : Json) : String := String.ofList j.compact

/-- A value over several lines. -/
def renderPretty (j : Json) : String := String.ofList (j.pretty 0)

end LinkExpr.Json
