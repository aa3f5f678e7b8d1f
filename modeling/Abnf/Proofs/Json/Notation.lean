import Abnf.Json.Reader

/-!
# The notation of JSON

RFC 8259, sections 2 to 7, as it stands there: which texts are values, and which value each of them
is. As with grammars, nothing here reads anything.

A `Tree` is what is left of a text when its white space is forgotten. It keeps strings by the way
their characters are spelled, numbers by their digits, and every member of an object, also those
whose name comes again. What a tree means is its value.

White space belongs to the brackets, commas and colons around which it stands, so that an array has
some of its own before and behind it.
-/

namespace Abnf.Json

/-! ## White space and structural characters -/

/-- `ws` -/
def Space (w : List Char) : Prop := ∀ c ∈ w, c ∈ [' ', '\t', '\n', '\r']

/-- A structural character and the white space around it, as in `begin-array`. -/
inductive Structural (c : Char) : List Char → Prop where
  | mk {v w : List Char} : Space v → Space w → Structural c (v ++ c :: w)

/-! ## Numbers -/

/-- `1*DIGIT` -/
def Digits (ds : List Char) : Prop := ds ≠ [] ∧ ∀ c ∈ ds, Text.isAsciiDigit c

/-- `int` -/
inductive WholeText : List Char → Prop where
  | zero : WholeText ['0']
  | more {c : Char} {ds : List Char} :
      Text.isAsciiDigit c → c ≠ '0' → (∀ d ∈ ds, Text.isAsciiDigit d) → WholeText (c :: ds)

/-- `[ frac ]` -/
inductive FractionText : Option (List Char) → List Char → Prop where
  | absent : FractionText none []
  | present {ds : List Char} : Digits ds → FractionText (some ds) ('.' :: ds)

/-- `[ minus / plus ]`, and whether it is a minus -/
inductive SignText : Bool → List Char → Prop where
  | absent : SignText false []
  | plus : SignText false ['+']
  | minus : SignText true ['-']

/-- `[ exp ]` -/
inductive ExponentText : Option (Bool × List Char) → List Char → Prop where
  | absent : ExponentText none []
  | present {letter : Char} {negative : Bool} {u ds : List Char} :
      letter ∈ ['e', 'E'] → SignText negative u → Digits ds →
      ExponentText (some (negative, ds)) (letter :: (u ++ ds))

/-- `[ minus ]` -/
def minusText (negative : Bool) : List Char := if negative then ['-'] else []

/-- `number` -/
inductive NumberText : Numeral → List Char → Prop where
  | mk {n : Numeral} {u v : List Char} :
      WholeText n.whole → FractionText n.fraction u → ExponentText n.exponent v →
      NumberText n (minusText n.negative ++ (n.whole ++ (u ++ v)))

namespace Numeral

/-- Whether a number has neither a fraction nor an exponent. -/
def IsInteger (n : Numeral) : Prop := n.fraction = none ∧ n.exponent = none

instance (n : Numeral) : Decidable n.IsInteger := inferInstanceAs (Decidable (_ ∧ _))

/-- The integer that the sign and the integer digits are. -/
def integer (n : Numeral) : Int :=
  let size : Int := Text.numeralValue 10 n.whole
  if n.negative then -size else size

/-- The power of ten that an exponent stands for. -/
def power (n : Numeral) : Int :=
  match n.exponent with
  | none => 0
  | some (negative, ds) =>
    let size : Int := Text.numeralValue 10 ds
    if negative then -size else size

/-- The number as it is rounded to 64 bits. -/
def rounded (n : Numeral) : Number.Binary64 :=
  let ds := n.whole ++ n.fraction.getD []
  .ofDecimal n.negative (Text.numeralValue 10 ds) ds.length (n.power - (n.fraction.getD []).length)

/-- The value of a number: exact if it is written as an integer, else rounded. -/
def meaning (n : Numeral) : Value := if n.IsInteger then .int n.integer else .real n.rounded

/-- Only integers have a limit to their length. -/
def Fits (n : Numeral) : Prop := n.IsInteger → n.whole.length ≤ Text.decimalLimit

end Numeral

/-! ## Strings -/

/-- One character of a string, by the way it is spelled. -/
inductive Piece where
  /-- The character itself. -/
  | unescaped (c : Char)
  /-- A letter behind a backslash. -/
  | short (letter : Char)
  /-- Four digits behind `\u`. -/
  | number (digits : List Char)

namespace Piece

/-- The letters behind a backslash, and what they spell. -/
def shortEscapes : List (Char × Nat) :=
  [('"', 0x22), ('\\', 0x5C), ('/', 0x2F), ('b', 0x08), ('f', 0x0C), ('n', 0x0A), ('r', 0x0D),
    ('t', 0x09)]

/-- `char` -/
def Legal : Piece → Prop
  | unescaped c => (0x20 ≤ c.toNat ∧ c.toNat ≤ 0x21) ∨ (0x23 ≤ c.toNat ∧ c.toNat ≤ 0x5B) ∨
      (0x5D ≤ c.toNat ∧ c.toNat ≤ 0x10FFFF)
  | short letter => (shortEscapes.lookup letter).isSome
  | number ds => ds.length = 4 ∧ ∀ c ∈ ds, Text.isHexDigit c

/-- How a character is written. -/
def text : Piece → List Char
  | unescaped c => [c]
  | short letter => ['\\', letter]
  | number ds => '\\' :: 'u' :: ds

/-- The number that is spelled. -/
def code : Piece → Nat
  | unescaped c => c.toNat
  | short letter => (shortEscapes.lookup letter).getD 0
  | number ds => Text.numeralValue 16 ds

end Piece

/-- `string` -/
inductive StringText : List Piece → List Char → Prop where
  | mk {pieces : List Piece} :
      (∀ p ∈ pieces, p.Legal) → StringText pieces ('"' :: (pieces.flatMap Piece.text ++ ['"']))

/-- The text of a string, in which halves of a character that follow each other are joined. -/
def textOf (pieces : List Piece) : List Nat := Text.joinPairs (pieces.map Piece.code)

/-! ## Values -/

/-- The parts of a text that contain each other. -/
inductive Part where
  | value
  | items
  | members

/-- What is left of a text when its white space is forgotten. -/
inductive Tree : Part → Type where
  | null : Tree .value
  | bool (b : Bool) : Tree .value
  | number (n : Numeral) : Tree .value
  | string (pieces : List Piece) : Tree .value
  | array (items : Tree .items) : Tree .value
  | object (members : Tree .members) : Tree .value
  | noItems : Tree .items
  | item (first : Tree .value) (rest : Tree .items) : Tree .items
  | noMembers : Tree .members
  | member (name : List Piece) (first : Tree .value) (rest : Tree .members) : Tree .members

/-- `Derives t u`: the text `u` is derived from the notation and says `t`. -/
inductive Derives : {part : Part} → Tree part → List Char → Prop where
  | null : Derives .null ['n', 'u', 'l', 'l']
  | false : Derives (.bool false) ['f', 'a', 'l', 's', 'e']
  | true : Derives (.bool true) ['t', 'r', 'u', 'e']
  | number {n : Numeral} {u : List Char} : NumberText n u → Derives (.number n) u
  | string {pieces : List Piece} {u : List Char} :
      StringText pieces u → Derives (.string pieces) u
  | emptyArray {u v : List Char} :
      Structural '[' u → Structural ']' v → Derives (.array .noItems) (u ++ v)
  | array {items : Tree .items} {u v w : List Char} :
      Structural '[' u → Derives items v → Structural ']' w →
      Derives (.array items) (u ++ (v ++ w))
  | emptyObject {u v : List Char} :
      Structural '\x7b' u → Structural '\x7d' v → Derives (.object .noMembers) (u ++ v)
  | object {members : Tree .members} {u v w : List Char} :
      Structural '\x7b' u → Derives members v → Structural '\x7d' w →
      Derives (.object members) (u ++ (v ++ w))
  | lastItem {t : Tree .value} {u : List Char} : Derives t u → Derives (.item t .noItems) u
  | item {t : Tree .value} {rest : Tree .items} {u v w : List Char} :
      Derives t u → Structural ',' v → Derives rest w → Derives (.item t rest) (u ++ (v ++ w))
  | lastMember {name : List Piece} {t : Tree .value} {u v w : List Char} :
      StringText name u → Structural ':' v → Derives t w →
      Derives (.member name t .noMembers) (u ++ (v ++ w))
  | member {name : List Piece} {t : Tree .value} {rest : Tree .members}
      {u v w x y : List Char} :
      StringText name u → Structural ':' v → Derives t w → Structural ',' x → Derives rest y →
      Derives (.member name t rest) (u ++ (v ++ (w ++ (x ++ y))))

/-- `JSON-text` -/
inductive JsonText : Tree .value → List Char → Prop where
  | mk {t : Tree .value} {u v w : List Char} :
      Space v → Derives t u → Space w → JsonText t (v ++ (u ++ w))

/-! ## What trees mean -/

/--
The members of an object with each name once: in the place where it first stands, with the value
that stands behind it last.
-/
def lastOfEach (members : List (List Nat × Value)) : List (List Nat × Value) :=
  (members.map (·.1)).eraseDups.filterMap fun name => members.reverse.find? (·.1 = name)

/-- What a part of a text means. -/
abbrev Part.Meaning : Part → Type
  | value => Value
  | items => List Value
  | members => List (List Nat × Value)

namespace Tree

/-- What a tree means. -/
def meaning : {part : Part} → Tree part → part.Meaning
  | _, null => Value.null
  | _, bool b => Value.bool b
  | _, number n => n.meaning
  | _, string pieces => Value.string (textOf pieces)
  | _, array items => Value.array items.meaning
  | _, object members => Value.object (lastOfEach members.meaning)
  | _, noItems | _, noMembers => []
  | _, item first rest => first.meaning :: rest.meaning
  | _, member name first rest => (textOf name, first.meaning) :: rest.meaning

/-- How many values are inside each other, the outermost counted. -/
def depth : {part : Part} → Tree part → Nat
  | _, null | _, bool _ | _, number _ | _, string _ => 1
  | _, array items => items.depth + 1
  | _, object members => members.depth + 1
  | _, noItems | _, noMembers => 0
  | _, item first rest | _, member _ first rest => max first.depth rest.depth

/-- No integer is too long. -/
def Fits : {part : Part} → Tree part → Prop
  | _, null | _, bool _ | _, string _ | _, noItems | _, noMembers => True
  | _, number n => n.Fits
  | _, array items => items.Fits
  | _, object members => members.Fits
  | _, item first rest | _, member _ first rest => first.Fits ∧ rest.Fits

/-- Values are not nested too deeply, and no integer is too long. -/
def WithinLimits [Interpreter] (t : Tree .value) : Prop := t.depth ≤ depthLimit ∧ t.Fits

end Tree

end Abnf.Json
