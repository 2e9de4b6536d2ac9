import LinkExpr.Text.Printable

/-!
# Quoted text

Text is quoted so that it can be read on a terminal: quotes, backslashes and control characters are
escaped, and so is what would not be visible on its own. The two forms differ in single quotes,
which are escaped only in a literal, and in combining marks, which a literal escapes only at its
beginning, where there is nothing to join.
-/

namespace LinkExpr.Text

/-- A digit of the hexadecimal system. -/
def hexDigit (n : Nat) : Char :=
  if n < 10 then Char.ofNat ('0'.toNat + n) else Char.ofNat ('a'.toNat + (n - 10))

/-- The lower case hexadecimal digits of a number, without leading zeros. -/
def hexDigits (n : Nat) : List Char :=
  if n < 16 then [hexDigit n] else hexDigits (n / 16) ++ [hexDigit (n % 16)]
termination_by n
decreasing_by omega

/-- A character given by its code point. -/
def codePointEscape (c : Char) : List Char :=
  ['\\', 'u', '\x7b'] ++ hexDigits c.toNat ++ ['\x7d']

/-- Which characters are escaped besides the usual ones. -/
structure QuoteStyle where
  /-- Whether a single quote is escaped. -/
  singleQuote : Bool
  /-- Whether a character that joins the one before it is escaped. -/
  graphemeExtend : Bool

/-- A character as it is written between quotes. -/
def escapeChar (style : QuoteStyle) (c : Char) : List Char :=
  match c with
  | '\x00' => ['\\', '0']
  | '\t' => ['\\', 't']
  | '\r' => ['\\', 'r']
  | '\n' => ['\\', 'n']
  | '\\' => ['\\', '\\']
  | '"' => ['\\', '"']
  | _ =>
      if c = '\'' then if style.singleQuote then ['\\', '\''] else [c]
      else if style.graphemeExtend && extendsGrapheme c then codePointEscape c
      else if isPrintable c then [c]
      else codePointEscape c

/-- A literal text between double quotes. -/
def quoteLiteral (s : String) : String :=
  let escaped := match s.toList with
    | [] => []
    | c :: cs => escapeChar ⟨true, true⟩ c ++ cs.flatMap (escapeChar ⟨true, false⟩)
  String.ofList ('"' :: (escaped ++ ['"']))

/-- A text between double quotes as an entry of a listing. -/
def quoteEntry (s : String) : String :=
  String.ofList ('"' :: (s.toList.flatMap (escapeChar ⟨false, true⟩) ++ ['"']))

end LinkExpr.Text
