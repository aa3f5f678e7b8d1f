import Abnf.Text.NamedTable

/-!
# What a run is given from outside

Two things come neither from the text that is read nor from the library. An expression may name a
character, and which names there are is for the interpreter to say that runs the program. And groups
and values nest only as deeply as its calls may. What asks for one of these takes the interpreter as
an instance argument: nothing is known of it but the bounds below.
-/

namespace Abnf

/-- The interpreter that the program runs in. -/
class Interpreter where
  /-- The character with a name. -/
  charNamed? : List Char → Option Char
  /-- How deeply the groups of a grammar may nest. -/
  groupDepth : Nat
  /-- How deeply arrays and objects may nest. -/
  valueDepth : Nat
  /-- There is room for the groups of the grammars that come with the library. -/
  room_for_groups : 8 ≤ groupDepth
  /-- There is room for a value. -/
  room_for_value : 1 ≤ valueDepth

/--
An interpreter with limits as they usually are, which knows the names of the printable characters of
ASCII. Examples run in it; everything else is said of all interpreters.
-/
instance (priority := low) Interpreter.usual : Interpreter where
  charNamed? := Text.printableNamed?
  groupDepth := 250
  valueDepth := 400
  room_for_groups := by decide
  room_for_value := by decide

end Abnf
