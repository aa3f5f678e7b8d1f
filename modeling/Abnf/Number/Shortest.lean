import Abnf.Number.Binary64

/-!
# The shortest decimal of a number

A number in 64 bits is written with the fewest digits that read back as the same number, and of
those with the nearest, a tie going to the even digit. For one digit, two digits and so on the two
neighbours of the number on that decimal grid are tried; seventeen digits always suffice.
-/

namespace Abnf.Number

namespace Binary64

/-- The power of ten that the first digit of a positive quotient stands for. -/
def leadingPlace (num den : Nat) : Int :=
  let guess : Int := (((num.log2 : Int) - den.log2) * 30103) / 100000
  let reaches (place : Int) : Bool :=
    if place < 0 then den ≤ num * tenTo place.natAbs else den * tenTo place.natAbs ≤ num
  if reaches (guess + 1) then guess + 1 else if reaches guess then guess else guess - 1

/-- The number `digits * 10^place`. -/
def ofPlaces (digits : Nat) (place : Int) : Nat :=
  (ofDecimal false digits (Nat.toDigits 10 digits).length place).bits

/--
Digits that read back as these bits on the grid of so many digits from the leading place on. The
upper neighbour may be a power of ten, which needs one digit less.
-/
def onGrid (bits num den : Nat) (leading : Int) (count : Nat) : Option (Nat × Int) :=
  let place : Int := leading - count + 1
  let (num, den) :=
    if place < 0 then (num * tenTo place.natAbs, den) else (num, den * tenTo place.natAbs)
  let low := num / den
  let rest := 2 * (num % den)
  let lowFirst := rest < den || (rest = den && low % 2 = 0)
  let order := if lowFirst then [low, low + 1] else [low + 1, low]
  (order.find? fun digits => ofPlaces digits place = bits).map fun digits =>
    if digits % 10 = 0 then (digits / 10, place + 1) else (digits, place)

/--
The shortest digits of a positive finite number, and the power of ten that the last stands for.
-/
def shortest (x : Binary64) : Nat × Int :=
  let (mantissa, power) := x.parts
  let (num, den) :=
    if power < 0 then (mantissa, 1 <<< power.natAbs) else (mantissa <<< power.natAbs, 1)
  let leading := leadingPlace num den
  (((List.range 17).map (· + 1)).findSome? (onGrid x.magnitude num den leading)).getD (0, 0)

/-- The text of the digits of a number, positional unless its size calls for an exponent. -/
def writeDigits (digits : List Char) (last : Int) : List Char :=
  let leading : Int := last + digits.length - 1
  if leading < -4 ∨ 16 ≤ leading then
    let fraction := if digits.length = 1 then [] else '.' :: digits.drop 1
    let exponent := (Nat.toDigits 10 leading.natAbs).leftpad 2 '0'
    digits.take 1 ++ fraction ++ 'e' :: (if leading < 0 then '-' else '+') :: exponent
  else if 0 ≤ last then digits ++ List.replicate last.natAbs '0' ++ ['.', '0']
  else if leading < 0 then '0' :: '.' :: List.replicate (leading.natAbs - 1) '0' ++ digits
  else digits.take (leading.natAbs + 1) ++ '.' :: digits.drop (leading.natAbs + 1)

/-- The text of a number: as few digits as read back, with a point or an exponent. -/
def shown (x : Binary64) : List Char :=
  let sign := if x.isNegative then ['-'] else []
  if infinityBits < x.magnitude then ['n', 'a', 'n']
  else if x.magnitude = infinityBits then sign ++ ['i', 'n', 'f']
  else if x.magnitude = 0 then sign ++ ['0', '.', '0']
  else
    let (digits, last) := x.shortest
    sign ++ writeDigits (Nat.toDigits 10 digits) last

end Binary64

end Abnf.Number
