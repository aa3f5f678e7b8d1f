import Abnf.Text.Numeral

/-!
# What can be wrong with a JSON text

A text is refused at the position where it stops being JSON, for lack of what should come next
there. Two causes have no position: an integer with too many digits, and values nested too deeply.
-/

namespace Abnf.Json

/-- Why a text is refused. -/
inductive Cause where
  /-- No value where one should be. -/
  | expectedValue
  /-- No string where the name of a field should be. -/
  | expectedName
  /-- Another character than the one that should be. -/
  | expected (char : Char)
  /-- A backslash before something that it does not escape. -/
  | invalidEscape
  /-- More text after the value. -/
  | trailing
  /-- An integer with too many digits. -/
  | numeralTooLong (numeral : Text.NumeralTooLong)
  /-- Values nested too deeply. -/
  | nestedTooDeeply
  deriving DecidableEq, Repr

/-- A cause, and how many characters of the text were left when it was found. -/
structure Fault where
  cause : Cause
  left : Nat
  deriving DecidableEq, Repr

/-- Why a text is refused, and where. -/
structure Error where
  cause : Cause
  position : Nat
  deriving DecidableEq, Repr

/-- The character that should be, in quotes. The double quote is put in single quotes. -/
def quotedExpected (char : Char) : String :=
  if char = '"' then "'\"'" else "\"" ++ String.singleton char ++ "\""

/-- What is said of an error. -/
def Error.message (e : Error) : String :=
  let located (what : String) := what ++ " at position " ++ toString e.position ++ "."
  match e.cause with
  | .expectedValue => located "Expected value"
  | .expectedName => located "Expected object key string"
  | .expected char => located ("Expected " ++ quotedExpected char)
  | .invalidEscape => located "Invalid escape"
  | .trailing => located "Unexpected data after JSON value"
  | .numeralTooLong numeral => numeral.message
  | .nestedTooDeeply => "JSON value is nested too deeply."

end Abnf.Json
