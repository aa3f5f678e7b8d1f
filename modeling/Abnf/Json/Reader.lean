import Abnf.Interpreter
import Abnf.Json.Fault
import Abnf.Json.Value
import Abnf.Text.CharKind
import Abnf.Text.Utf16

/-!
# Reading JSON

A value is read from left to right. Readers take the characters that are left and answer with what
they read and the characters left after it. Arrays and objects contain values; how deeply they may
nest is limited by the interpreter, and that limit is what the recursion through them goes down on.

A number is as long as it can be: a point or an exponent that is not followed by what it needs is no
part of it.
-/

namespace Abnf.Json

variable [Interpreter]

/-- Ends the reading at the characters left. -/
def refuse {α : Type} (cause : Cause) (left : List Char) : Except Fault α :=
  .error ⟨cause, left.length⟩

/-- How deeply arrays and objects may nest. -/
def depthLimit : Nat := Interpreter.valueDepth

/-- Space, tab, line feed or carriage return. -/
def isSpace (c : Char) : Bool := c = ' ' || c = '\t' || c = '\n' || c = '\r'

/-- What is left after white space. -/
def skip (cs : List Char) : List Char := cs.dropWhile isSpace

/-- A character that stands for itself in a string. -/
def isUnescaped (c : Char) : Bool := ' ' ≤ c && c ≠ '"' && c ≠ '\\'

/-- What is left after a word, if the text starts with it. -/
def word? (word cs : List Char) : Option (List Char) :=
  if word.isPrefixOf cs then some (cs.drop word.length) else none

/-- Reads a character that has to come next. -/
def expect (char : Char) (cs : List Char) : Except Fault (List Char) :=
  match cs with
  | c :: rest => if c = char then .ok rest else refuse (.expected char) cs
  | [] => refuse (.expected char) cs

/-- What a backslash and a letter spell. -/
def simpleEscape? : Char → Option Nat
  | '"' => some 34
  | '\\' => some 92
  | '/' => some 47
  | 'b' => some 8
  | 'f' => some 12
  | 'n' => some 10
  | 'r' => some 13
  | 't' => some 9
  | _ => none

/--
What stands behind a backslash: the number that it spells and what is left, or nothing it may be.
-/
def escape? : List Char → Option (Nat × List Char)
  | 'u' :: a :: b :: c :: d :: rest =>
    if [a, b, c, d].all Text.isHexDigit then some (Text.numeralValue 16 [a, b, c, d], rest)
    else none
  | c :: rest => (simpleEscape? c).map (·, rest)
  | [] => none

/--
Reads the characters of a string behind its opening quote, of which `before` have been read, the
latest first. At most so many pieces are read, and each takes a character.
-/
def readCodes : Nat → (before : List Nat) → List Char → Except Fault (List Nat × List Char)
  | 0, _, cs => refuse (.expected '"') cs
  | n + 1, before, cs =>
    match cs with
    | '\\' :: rest =>
      match escape? rest with
      | some (code, rest) => readCodes n (code :: before) rest
      | none => refuse .invalidEscape rest
    | c :: rest =>
      if isUnescaped c then readCodes n (c.toNat :: before) rest
      else if c = '"' then .ok (before.reverse, rest)
      else refuse (.expected '"') cs
    | [] => refuse (.expected '"') cs

/-- Reads a string, if there is one. -/
def readString : List Char → Except Fault (Option (List Nat × List Char))
  | '"' :: cs => do
    let (codes, rest) ← readCodes (cs.length + 1) [] cs
    return some (Text.joinPairs codes, rest)
  | _ => return none

/-- A number as it is written: sign, integer digits, fraction digits, exponent. -/
structure Numeral where
  negative : Bool
  whole : List Char
  /-- The digits behind the point, none if there is no point. -/
  fraction : Option (List Char)
  /-- The sign of the exponent and its digits, none if there is no exponent. -/
  exponent : Option (Bool × List Char)
  deriving DecidableEq, Repr

/-- The digits at the start of a text, and what is left after them. -/
def digits (cs : List Char) : List Char × List Char :=
  (cs.takeWhile Text.isAsciiDigit, cs.dropWhile Text.isAsciiDigit)

/-- The integer digits of a number: a zero alone, or digits without a zero in front. -/
def whole? : List Char → Option (List Char × List Char)
  | '0' :: cs => some (['0'], cs)
  | cs =>
    match digits cs with
    | ([], _) => none
    | taken => some taken

/-- The fraction of a number, if a point and digits come next. -/
def fraction? : List Char → Option (List Char) × List Char
  | '.' :: cs =>
    match digits cs with
    | ([], _) => (none, '.' :: cs)
    | (taken, rest) => (some taken, rest)
  | cs => (none, cs)

/-- A sign, if one comes next: whether it is a minus, and what is left. -/
def sign : List Char → Bool × List Char
  | '-' :: cs => (true, cs)
  | '+' :: cs => (false, cs)
  | cs => (false, cs)

/-- The exponent of a number, if its letter and digits come next. -/
def exponent? (cs : List Char) : Option (Bool × List Char) × List Char :=
  match cs with
  | c :: after =>
    if c = 'e' || c = 'E' then
      let (negative, after) := sign after
      match digits after with
      | ([], _) => (none, cs)
      | (taken, rest) => (some (negative, taken), rest)
    else (none, cs)
  | [] => (none, cs)

/-- The longest number that a text starts with. -/
def numeral? (cs : List Char) : Option (Numeral × List Char) :=
  let (negative, unsigned) :=
    match cs with
    | '-' :: rest => (true, rest)
    | cs => (false, cs)
  (whole? unsigned).map fun (whole, rest) =>
    let (fraction, rest) := fraction? rest
    let (exponent, rest) := exponent? rest
    ({ negative, whole, fraction, exponent }, rest)

/-- The value of a number that ends at the characters left. -/
def Numeral.value (n : Numeral) (left : List Char) : Except Fault Value :=
  match n.fraction, n.exponent with
  | none, none =>
    match Text.decimalValue n.whole with
    | .ok size => .ok (.int (if n.negative then -(size : Int) else size))
    | .error long => refuse (.numeralTooLong long) left
  | fraction, exponent =>
    let places := fraction.getD []
    let power : Int :=
      match exponent with
      | none => 0
      | some (negative, taken) =>
        let size : Int := Text.numeralValue 10 taken
        if negative then -size else size
    let taken := n.whole ++ places
    .ok (.real (.ofDecimal n.negative (Text.numeralValue 10 taken) taken.length
      (power - places.length)))

/-- Reads the items of an array behind its bracket; at most so many. -/
def readItems (value : List Char → Except Fault (Value × List Char)) :
    Nat → List Char → Except Fault (List Value × List Char)
  | 0, cs => refuse (.expected ']') cs
  | n + 1, cs => do
    let (item, rest) ← value (skip cs)
    match skip rest with
    | ',' :: rest => do
      let (items, rest) ← readItems value n rest
      return (item :: items, rest)
    | rest => return ([item], ← expect ']' rest)

/-- Reads an array behind its bracket. -/
def readArray (value : List Char → Except Fault (Value × List Char)) (cs : List Char) :
    Except Fault (List Value × List Char) :=
  match skip cs with
  | ']' :: rest => return ([], rest)
  | rest => readItems value (rest.length + 1) rest

/-- Reads a field: its name, a colon, its value. -/
def readField (value : List Char → Except Fault (Value × List Char)) (cs : List Char) :
    Except Fault ((List Nat × Value) × List Char) := do
  match ← readString (skip cs) with
  | none => refuse .expectedName (skip cs)
  | some (name, rest) => do
    let rest ← expect ':' (skip rest)
    let (item, rest) ← value (skip rest)
    return ((name, item), rest)

/-- Reads the fields of an object behind its brace, after `before`; at most so many. -/
def readFields (value : List Char → Except Fault (Value × List Char)) :
    Nat → (before : List (List Nat × Value)) → List Char →
      Except Fault (List (List Nat × Value) × List Char)
  | 0, _, cs => refuse (.expected '\x7d') cs
  | n + 1, before, cs => do
    let ((name, item), rest) ← readField value cs
    let fields := insertField before name item
    match skip rest with
    | ',' :: rest => readFields value n fields rest
    | rest => return (fields, ← expect '\x7d' rest)

/-- Reads an object behind its brace. -/
def readObject (value : List Char → Except Fault (Value × List Char)) (cs : List Char) :
    Except Fault (List (List Nat × Value) × List Char) :=
  match skip cs with
  | '\x7d' :: rest => return ([], rest)
  | rest => readFields value (rest.length + 1) [] rest

/-- The words that are values. -/
def word (cs : List Char) : Option (Value × List Char) :=
  (((word? "null".toList cs).map (Value.null, ·)).or
    ((word? "false".toList cs).map (Value.bool false, ·))).or
    ((word? "true".toList cs).map (Value.bool true, ·))

/-- Reads a value in which arrays and objects may nest so deeply. -/
def readValue : (depth : Nat) → List Char → Except Fault (Value × List Char)
  | 0, cs => refuse .nestedTooDeeply cs
  | depth + 1, cs =>
    match word cs, numeral? cs with
    | some found, _ => return found
    | none, some (numeral, rest) => return (← numeral.value rest, rest)
    | none, none =>
      match cs with
      | '[' :: rest => do
        let (items, rest) ← readArray (readValue depth) rest
        return (.array items, rest)
      | '\x7b' :: rest => do
        let (fields, rest) ← readObject (readValue depth) rest
        return (.object fields, rest)
      | cs => do
        match ← readString cs with
        | some (codes, rest) => return (.string codes, rest)
        | none => refuse .expectedValue cs

/-- Reads a text that is one value and white space around it. -/
def readText (text : List Char) : Except Fault Value := do
  let (value, rest) ← readValue depthLimit (skip text)
  let rest := skip rest
  if rest.isEmpty then return value else refuse .trailing rest

/-- The value of a JSON text. -/
def parse (text : List Char) : Except Error Value :=
  (readText text).mapError fun fault => ⟨fault.cause, text.length - fault.left⟩

end Abnf.Json
