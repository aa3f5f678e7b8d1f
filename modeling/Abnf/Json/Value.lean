import Abnf.Number.Binary64

/-!
# What JSON says

The values of JSON. Integers are exact and numbers with a fraction or exponent are rounded to 64
bits. Strings are lists of code points, because an escape may spell half of a character alone. The
fields of an object keep the order in which their names first occurred.
-/

namespace Abnf.Json

/-- A value of JSON. -/
inductive Value where
  | null
  | bool (value : Bool)
  | int (value : Int)
  | real (value : Number.Binary64)
  | string (codes : List Nat)
  | array (items : List Value)
  | object (fields : List (List Nat × Value))

/-- Fields with one more: a name that is there already keeps its place and takes the new value. -/
def insertField (fields : List (List Nat × Value)) (name : List Nat) (value : Value) :
    List (List Nat × Value) :=
  match fields with
  | [] => [(name, value)]
  | field :: rest =>
    if field.1 = name then (name, value) :: rest else field :: insertField rest name value

end Abnf.Json
