import Abnf.Text.CharKind
import Abnf.Text.Numeral

/-!
# Strings as grammar text

A string can be put into a grammar only as grammar text, and a quoted string of a grammar holds
neither a double quote nor anything but printable ASCII. So a string is cut into pieces of three
kinds: runs of double quotes, which become references to the rule for one, runs of what may be
quoted, and single other characters, which are given by number.
-/

namespace Abnf.Template

/-- A piece of a string, by the way in which it is written. -/
inductive Piece where
  /-- So many double quotes. -/
  | quotes (count : Nat)
  /-- What may stand between double quotes. -/
  | plain (text : List Char)
  /-- Any other character. -/
  | code (code : Nat)
  deriving DecidableEq, Repr

namespace Piece

/-- A printable ASCII character other than the double quote. -/
def isPlain (c : Char) : Bool := ' ' ≤ c && c ≤ '~' && c ≠ '"'

/-- The pieces of a string, each as long as it can be. -/
def ofText : List Char → List Piece
  | [] => []
  | c :: cs =>
    let pieces := ofText cs
    if c = '"' then
      match pieces with
      | quotes n :: rest => quotes (n + 1) :: rest
      | pieces => quotes 1 :: pieces
    else if isPlain c then
      match pieces with
      | plain text :: rest => plain (c :: text) :: rest
      | pieces => plain [c] :: pieces
    else code c.toNat :: pieces

/-- The reference to the rule for a double quote. -/
def quoteRule : List Char := ['D', 'Q', 'U', 'O', 'T', 'E']

/-- A piece as grammar text. -/
def toAbnf : Piece → List Char
  | quotes n => if n = 1 then quoteRule else Text.decimal n ++ quoteRule
  | plain text => '"' :: text ++ ['"']
  | code n => '%' :: 'x' :: (Nat.toDigits 16 n).map Char.toUpper

end Piece

/-- A string as grammar text that stands for it, in any case. -/
def literalToAbnf (text : List Char) : List Char :=
  [' '].intercalate ((Piece.ofText text).map Piece.toAbnf)

end Abnf.Template
