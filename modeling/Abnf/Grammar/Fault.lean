import Abnf.Grammar.Rules
import Abnf.Text.Location

/-!
# What can be wrong with a grammar

A grammar is refused for one of the causes below. Every cause is found at a position of its text,
which the message gives as line and column, except that a numeral with too many digits and groups
nested too deeply are refused without saying where.
-/

namespace Abnf.Grammar

/-- What the grammar should go on with. -/
inductive Expected where
  | element
  | closingParenthesis
  | closingBracket
  | definedAs
  | ruleName
  | newLine
  deriving DecidableEq, Repr

/-- What is said of the lack of something. -/
def Expected.message : Expected → String
  | element => "Expected element."
  | closingParenthesis => "Expected \")\"."
  | closingBracket => "Expected \"]\"."
  | definedAs => "Expected \"=\" or \"=/\"."
  | ruleName => "Expected rule name."
  | newLine => "Expected new line."

/-- Why a grammar is refused. -/
inductive Cause where
  /-- The text is not a grammar. -/
  | expected (what : Expected)
  /-- A reference to a rule that has not been defined before. -/
  | undefinedRule (name : Name)
  /-- A definition of a name that may not be defined. -/
  | reservedName (name : Name)
  /-- Alternatives for a rule that has not been defined before. -/
  | undefinedExtension (name : Name)
  /-- A repeat whose bounds are the wrong way around. -/
  | repeatOrder
  /-- A range whose ends are not in order. -/
  | rangeOrder
  /-- A number that no character has. -/
  | codeTooLarge (code : Nat)
  /-- A decimal numeral with too many digits. -/
  | numeralTooLong (numeral : Text.NumeralTooLong)
  /-- Groups nested too deeply. -/
  | nestedTooDeeply
  deriving DecidableEq, Repr

/-- The kinds of faults that a caller may tell apart. -/
inductive Kind where
  | notWellFormed
  | undefinedRule
  | reservedName
  | undefinedExtension
  | invalidRange
  | numeralTooLong
  | nestedTooDeeply
  deriving DecidableEq, Repr

namespace Cause

/-- The kind of a cause. -/
def kind : Cause → Kind
  | expected _ => .notWellFormed
  | undefinedRule _ => .undefinedRule
  | reservedName _ => .reservedName
  | undefinedExtension _ => .undefinedExtension
  | repeatOrder | rangeOrder | codeTooLarge _ => .invalidRange
  | numeralTooLong _ => .numeralTooLong
  | nestedTooDeeply => .nestedTooDeeply

/-- What is said of a cause. -/
def message : Cause → String
  | expected what => what.message
  | undefinedRule name => "Rule \"" ++ String.ofList name ++ "\" is not defined."
  | reservedName name => "Cannot redefine rule \"" ++ String.ofList name ++ "\"."
  | undefinedExtension name =>
    "Cannot add alternatives to undefined rule \"" ++ String.ofList name ++ "\"."
  | repeatOrder => "Minimum repetition is greater than maximum repetition."
  | rangeOrder => "Start value in range must be less than end value."
  | codeTooLarge code =>
    "Code point 0x" ++ String.ofList (Text.hexadecimal 0 code) ++ " is out of range."
  | numeralTooLong numeral => numeral.message
  | nestedTooDeeply => "Groups are nested too deeply."

end Cause

/-- A cause, and how many characters of the text were left when it was found. -/
structure Fault where
  cause : Cause
  left : Nat
  deriving DecidableEq, Repr

/-- Why a grammar is refused, and where. -/
structure Error where
  cause : Cause
  /-- How many characters of the text stand before the fault. -/
  position : Nat
  deriving DecidableEq, Repr

namespace Error

/-- The position of an error whose place is reported. -/
def position? (e : Error) : Option Nat :=
  match e.cause with
  | .numeralTooLong _ | .nestedTooDeeply => none
  | _ => some e.position

/-- What is said of an error in a text. -/
def message (e : Error) (text : List Char) : String :=
  match e.position? with
  | none => e.cause.message
  | some position =>
    e.cause.message ++ " (" ++ (Text.Location.ofPosition text position).describe ++ ")"

end Error

end Abnf.Grammar
