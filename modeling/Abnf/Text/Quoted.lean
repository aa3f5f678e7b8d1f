import Abnf.Text.CharKind
import Abnf.Text.Numeral

/-!
# Quoted text

Text that a message repeats is put in quotes, so that its ends and its invisible characters can be
seen: in single quotes, or in double quotes where that spares an escape. A character without a shape
of its own is spelled by its number, in as many digits as its size asks for.
-/

namespace Abnf.Text

/-- The quote to use for a text: the double quote where only single quotes occur in it. -/
def quoteFor (text : List Char) : Char :=
  if text.contains '\'' && !text.contains '"' then '"' else '\''

/-- A character as it is written between quotes. -/
def quotedChar (quote c : Char) : List Char :=
  if c = quote || c = '\\' then ['\\', c]
  else if c = '\t' then ['\\', 't']
  else if c = '\n' then ['\\', 'n']
  else if c = '\r' then ['\\', 'r']
  else if isShown c then [c]
  else if c.toNat ≤ 0xFF then '\\' :: 'x' :: hexadecimal 2 c.toNat
  else if c.toNat ≤ 0xFFFF then '\\' :: 'u' :: hexadecimal 4 c.toNat
  else '\\' :: 'U' :: hexadecimal 8 c.toNat

/-- A text in quotes. -/
def quoted (text : List Char) : List Char :=
  let quote := quoteFor text
  quote :: text.flatMap (quotedChar quote) ++ [quote]

end Abnf.Text
