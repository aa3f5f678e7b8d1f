import Abnf.Datum.Basic
import Abnf.Number.Shortest

/-!
# Data in messages

A message that repeats a datum shows text in quotes, numbers in decimal and collections in brackets
of their kind.
-/

namespace Abnf.Datum

mutual

/-- A datum as it is shown inside another. One that has no written form is shown as nothing. -/
def shown : Datum → List Char
  | null => "None".toList
  | bool true => "True".toList
  | bool false => "False".toList
  | int n => (toString n).toList
  | real x => x.shown
  | text chars => Text.quoted chars
  | bytes codes => 'b' :: Text.quoted (codes.map Char.ofNat)
  | list items => '[' :: shownAll items ++ [']']
  | tuple [item] => '(' :: item.shown ++ [',', ')']
  | tuple items => '(' :: shownAll items ++ [')']
  | set members => '\x7b' :: shownAll members ++ ['\x7d']
  | record fields => '\x7b' :: shownFields fields ++ ['\x7d']
  | pattern p => "re.compile(".toList ++ Text.quoted p.pattern.source ++ [')']
  | bytesPattern | value _ => []

/-- Data with a comma between each and the next. -/
def shownAll : List Datum → List Char
  | [] => []
  | [item] => item.shown
  | item :: items => item.shown ++ ',' :: ' ' :: shownAll items

/-- Fields with a comma between each and the next. -/
def shownFields : List (List Char × Datum) → List Char
  | [] => []
  | [(name, item)] => Text.quoted name ++ ':' :: ' ' :: item.shown
  | (name, item) :: fields =>
    Text.quoted name ++ ':' :: ' ' :: item.shown ++ ',' :: ' ' :: shownFields fields

end

/-- A datum as a message gives it: text as it is, anything else as it is shown. -/
def plainText : Datum → List Char
  | text chars => chars
  | datum => datum.shown

end Abnf.Datum
