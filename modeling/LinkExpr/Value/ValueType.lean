import LinkExpr.Diagnostic
import LinkExpr.Numeral

/-!
# Types of linked values

A linked value is declared with a type, which says what texts it may stand for.
-/

namespace LinkExpr

/-- The declared type of a linked value. -/
inductive ValueType
  | string
  | numeric
  | boolean
  | password
  | clientPort
  | serverPort
  | url
deriving DecidableEq, Repr

/-- A text that a type does not accept. -/
inductive Rejection
  | notBoolean (value : String)
  | notNumeric (value : String)
  | notPort (value : String)
deriving DecidableEq, Repr

namespace Rejection

/-- The wording of a rejection. -/
def message : Rejection → String
  | notBoolean value => "`" ++ value ++ "` is not a boolean value"
  | notNumeric value => "`" ++ value ++ "` is not a number"
  | notPort value => "`" ++ value ++ "` is not a valid port"

/-- What would be accepted instead. -/
def advice : Rejection → String
  | notBoolean _ => "use `true` or `false`"
  | notNumeric _ => "use a decimal number such as `42` or `0.5`"
  | notPort _ => "use a whole number between 0 and 65535"

instance : Reportable Rejection where
  message := message
  remarks r := [.help r.advice]

end Rejection

/-- Whether a text is a decimal number that does not overflow. -/
def isNumber (value : String) : Bool :=
  match Numeral.read? value.toList with
  | some n => n.isFinite
  | none => false

/-- Whether a text consists of digits and denotes a number that a port can have. -/
def isPortNumber (value : String) : Bool :=
  let digits := value.toList
  !digits.isEmpty && digits.all Char.isDigit && Numeral.natOfDigits digits ≤ 65535

namespace ValueType

/-- Values of these types must not become visible. -/
def isSecret : ValueType → Bool
  | password => true
  | _ => false

/-- Values of these types are ports. -/
def isPort : ValueType → Bool
  | clientPort | serverPort => true
  | _ => false

/-- Checks that a text is acceptable, exactly as it is given. -/
def validate : ValueType → String → Except Rejection Unit
  | boolean, value =>
      if value = "true" ∨ value = "false" then .ok () else .error (.notBoolean value)
  | numeric, value => if isNumber value then .ok () else .error (.notNumeric value)
  | clientPort, value | serverPort, value =>
      if isPortNumber value then .ok () else .error (.notPort value)
  | string, _ | password, _ | url, _ => .ok ()

end ValueType

end LinkExpr
