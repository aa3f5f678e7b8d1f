import Abnf.Text.Casing
import Abnf.Text.Numeral

/-!
# Literal text as a regular expression

A string of a grammar stands for its characters in any case. A character with a meaning of its own
in regular expressions, or that they may skip, is escaped; a letter becomes the set of its case
forms; everything else stands for itself.

A character given by its number stands for exactly that code point, and is written by number again,
in as many digits as its size asks for.
-/

namespace Abnf.Grammar

/-- The characters that are escaped so that they stand for themselves. -/
def isEscaped (c : Char) : Bool :=
  ['\t', '\n', '\x0b', '\x0c', '\r', ' ', '#', '$', '&', '(', ')', '*', '+', '-', '.', '?', '[',
    '\\', ']', '^', '\x7b', '|', '\x7d', '~'].contains c

/-- The set of a letter's case forms, and of the letter if it is neither; else the character. -/
def letterSource (c : Char) : List Char :=
  match Text.caseForms? c.toNat with
  | none => [c]
  | some (upper, lower) =>
    let forms := [Char.ofNat upper, Char.ofNat lower]
    '[' :: (if forms.contains c then forms else forms ++ [c]) ++ [']']

/-- A character of a string as a regular expression. -/
def charSource (c : Char) : List Char := if isEscaped c then ['\\', c] else letterSource c

/-- A string in any case as a regular expression. -/
def literalSource (text : List Char) : List Char := text.flatMap charSource

/-- A code point as a regular expression. -/
def codeSource (code : Nat) : List Char :=
  if 0xFFFF < code then '\\' :: 'U' :: Text.hexadecimal 8 code
  else if 0xFF < code then '\\' :: 'u' :: Text.hexadecimal 4 code
  else '\\' :: 'x' :: Text.hexadecimal 2 code

end Abnf.Grammar
