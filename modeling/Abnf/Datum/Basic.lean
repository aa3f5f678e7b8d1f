import Abnf.Number.Binary64
import Abnf.Template.Value

/-!
# Data of any kind

What callers hand in is not always of the kind that is asked for. A `Datum` is anything they can
hand in; the functions that take one say which kinds they accept and what is wrong with the others.
Records keep their fields in order, and sets come as the list of their members.
-/

namespace Abnf

/-- A value of any kind. -/
inductive Datum where
  | null
  | bool (value : Bool)
  | int (value : Int)
  | real (value : Number.Binary64)
  /-- A text. One with a lone surrogate in it is outside of this model. -/
  | text (chars : List Char)
  /-- Bytes as numbers below 256. -/
  | bytes (bytes : List Nat)
  | list (items : List Datum)
  | tuple (items : List Datum)
  | set (members : List Datum)
  | record (fields : List (List Char × Datum))
  | pattern (pattern : Template.PatternValue)
  /-- A regular expression over bytes instead of text. -/
  | bytesPattern
  /-- A value that has been checked already. -/
  | value (value : Template.Value)
  deriving Inhabited

namespace Datum

/-- The name of a kind, as messages use it. -/
def kindName : Datum → String
  | null => "NoneType"
  | bool _ => "bool"
  | int _ => "int"
  | real _ => "float"
  | text _ => "str"
  | bytes _ => "bytes"
  | list _ => "list"
  | tuple _ => "tuple"
  | set _ => "set"
  | record _ => "dict"
  | pattern _ | bytesPattern => "re.Pattern"
  | value (.text _) => "StringValue"
  | value (.choices _) => "StringSetValue"
  | value (.pattern _) => "PatternValue"

end Datum

end Abnf
