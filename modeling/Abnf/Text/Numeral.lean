/-!
# Numerals

Numbers are read from the digits of a base and written in lower-case hexadecimal or in decimal. A
decimal numeral may not be arbitrarily long: beyond `decimalLimit` digits it is refused before any
arithmetic, leading zeros counted. In the bases 2 and 16 there is no limit.
-/

namespace Abnf.Text

/-- The value of a digit up to `f`, in either case. -/
def digitValue (c : Char) : Nat :=
  if c ≤ '9' then c.toNat - 48 else if c ≤ 'F' then c.toNat - 55 else c.toNat - 87

/-- The value of a string of digits. -/
def numeralValue (base : Nat) (digits : List Char) : Nat :=
  digits.foldl (fun n c => n * base + digitValue c) 0

/-- The most digits that a decimal numeral may have. -/
def decimalLimit : Nat := 4300

/-- A decimal numeral with too many digits. -/
structure NumeralTooLong where
  digits : Nat
  deriving DecidableEq, Repr

/-- What is said of a numeral with too many digits. -/
def NumeralTooLong.message (fault : NumeralTooLong) : String :=
  "Exceeds the limit (" ++ toString decimalLimit
    ++ " digits) for integer string conversion: value has " ++ toString fault.digits
    ++ " digits; use sys.set_int_max_str_digits() to increase the limit"

/-- The value of a decimal numeral. -/
def decimalValue (digits : List Char) : Except NumeralTooLong Nat :=
  if digits.length ≤ decimalLimit then .ok (numeralValue 10 digits) else .error ⟨digits.length⟩

/-- A number in decimal. -/
def decimal (n : Nat) : List Char := Nat.toDigits 10 n

/-- A number in lower-case hexadecimal, with zeros in front up to a width. -/
def hexadecimal (width n : Nat) : List Char := (Nat.toDigits 16 n).leftpad width '0'

/-- Whether a character is a digit of hexadecimal, in either case. -/
def isHexDigit (c : Char) : Bool :=
  ('0' ≤ c && c ≤ '9') || ('A' ≤ c && c ≤ 'F') || ('a' ≤ c && c ≤ 'f')

end Abnf.Text
