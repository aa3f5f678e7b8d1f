import Abnf.Grammar.Fault
import Abnf.Text.CharKind

/-!
# The tokens of a grammar

The smallest pieces of RFC 5234, section 4. A scanner takes the characters that are left and answers
with what it took and the characters left after that, or with nothing. Scanners are greedy and never
have to give back, because no token can be followed by one of its own characters.

White space includes a line break if the next line starts with a blank; that is how a definition
goes on over several lines. A comment belongs to the line break after it.
-/

namespace Abnf.Grammar.Token

/-- `A` to `Z`, in either case. -/
def isLetter (c : Char) : Bool := ('A' ≤ c && c ≤ 'Z') || ('a' ≤ c && c ≤ 'z')

/-- A character that a name may go on with. -/
def isNameChar (c : Char) : Bool := isLetter c || Text.isAsciiDigit c || c = '-'

/-- A space or tab. -/
def isBlank (c : Char) : Bool := c = ' ' || c = '\t'

/-- A character that a comment may hold. -/
def isCommentChar (c : Char) : Bool := isBlank c || ('!' ≤ c && c ≤ '~')

/-- A character that a quoted string may hold. -/
def isQuotedChar (c : Char) : Bool := ' ' ≤ c && c ≤ '~' && c ≠ '"'

/-- A character that prose may hold. -/
def isProseChar (c : Char) : Bool := ' ' ≤ c && c ≤ '~' && c ≠ '>'

/-- What a scanner took, and what is left. -/
abbrev Taken (α : Type) := Option (α × List Char)

/-- The longest run of characters of a kind, which may be empty. -/
def run (p : Char → Bool) (cs : List Char) : List Char × List Char :=
  (cs.takeWhile p, cs.dropWhile p)

/-- The longest run of characters of a kind, which may not be empty. -/
def run? (p : Char → Bool) (cs : List Char) : Taken (List Char) :=
  match run p cs with
  | ([], _) => none
  | taken => some taken

/-- A rule name, put in lower case. -/
def name? : List Char → Taken Name
  | c :: cs =>
    if isLetter c then
      let (more, rest) := run isNameChar cs
      some ((c :: more).map Text.asciiLower, rest)
    else none
  | [] => none

/-- What is left after a comment, if there is one. -/
def dropComment : List Char → List Char
  | ';' :: cs => cs.dropWhile isCommentChar
  | cs => cs

/-- What is left after a line end. -/
def lineEnd? : List Char → Option (List Char)
  | '\n' :: cs => some cs
  | '\r' :: '\n' :: cs => some cs
  | _ => none

/-- What is left after one blank, or after a line break, with its comment, and a blank. -/
def blank? (cs : List Char) : Option (List Char) :=
  match cs with
  | [] => none
  | c :: rest =>
    if isBlank c then some rest
    else
      match lineEnd? (dropComment cs) with
      | some (d :: rest) => if isBlank d then some rest else none
      | _ => none

/-- What is left after so many blanks at most. -/
def skipBlanks : Nat → List Char → List Char
  | 0, cs => cs
  | n + 1, cs =>
    match blank? cs with
    | some rest => skipBlanks n rest
    | none => cs

/-- What is left after white space. Each blank takes a character, so no more than there are. -/
def skip (cs : List Char) : List Char := skipBlanks cs.length cs

/-- What is left after white space, of which there has to be some. -/
def skip? (cs : List Char) : Option (List Char) := (blank? cs).map skip

/-- `=`, or `=/` for alternatives of a rule that is defined already. -/
def definedAs? : List Char → Taken Bool
  | '=' :: '/' :: cs => some (true, cs)
  | '=' :: cs => some (false, cs)
  | _ => none

/-- A repeat as written: both bounds, either of which may be empty, or one exact count. -/
inductive Bounds where
  | range (least most : List Char)
  | exact (count : List Char)

/-- A repeat. -/
def bounds? (cs : List Char) : Taken Bounds :=
  match run Text.isAsciiDigit cs with
  | (least, '*' :: rest) =>
    let (most, rest) := run Text.isAsciiDigit rest
    some (.range least most, rest)
  | ([], _) => none
  | (count, rest) => some (.exact count, rest)

/-- The text up to a closing character, all of it of a kind. -/
def upTo? (p : Char → Bool) (closing : Char) (cs : List Char) : Taken (List Char) :=
  match run p cs with
  | (text, c :: rest) => if c = closing then some (text, rest) else none
  | _ => none

/-- The bases of numbers. -/
inductive Base where
  | binary
  | decimal
  | hexadecimal
  deriving DecidableEq, Repr

namespace Base

/-- The base of a letter, in either case. -/
def ofLetter? : Char → Option Base
  | 'b' | 'B' => some binary
  | 'd' | 'D' => some decimal
  | 'x' | 'X' => some hexadecimal
  | _ => none

/-- The digits of a base. -/
def isDigit : Base → Char → Bool
  | binary, c => c = '0' || c = '1'
  | decimal, c => Text.isAsciiDigit c
  | hexadecimal, c => Text.isHexDigit c

/-- The value of a numeral. Only decimal numerals have a limit to their length. -/
def value (base : Base) (digits : List Char) : Except Text.NumeralTooLong Nat :=
  match base with
  | binary => .ok (Text.numeralValue 2 digits)
  | decimal => Text.decimalValue digits
  | hexadecimal => .ok (Text.numeralValue 16 digits)

end Base

/-- Numbers as written: the ends of a range, or one or more in a row. -/
inductive Numbers where
  | range (base : Base) (first last : List Char)
  | row (base : Base) (first : List Char) (more : List (List Char))

/-- The numerals of a row after the first, each behind a point; at most so many. -/
def row (base : Base) : Nat → List Char → List (List Char) × List Char
  | n + 1, '.' :: cs =>
    match run? base.isDigit cs with
    | some (digits, rest) =>
      let (more, rest) := row base n rest
      (digits :: more, rest)
    | none => ([], '.' :: cs)
  | _, cs => ([], cs)

/-- What follows the first numeral, and with it makes up the numbers. -/
def numbersFrom (base : Base) (first : List Char) (cs : List Char) : Numbers × List Char :=
  match cs with
  | '-' :: rest =>
    match run? base.isDigit rest with
    | some (last, rest) => (.range base first last, rest)
    | none => (.row base first [], cs)
  | cs =>
    let (more, rest) := row base cs.length cs
    (.row base first more, rest)

/-- Numbers after their percent sign. A hyphen without a numeral behind it is no part of them. -/
def numbers? (cs : List Char) : Taken Numbers :=
  match cs with
  | [] => none
  | c :: cs =>
    match Base.ofLetter? c with
    | none => none
    | some base => (run? base.isDigit cs).map fun (first, rest) => numbersFrom base first rest

end Abnf.Grammar.Token
