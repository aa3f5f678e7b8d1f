/-!
# Numbers in 64 bits

A number with a fraction or exponent is kept as the nearest number of the binary64 format, a tie
going to the neighbour with the even last bit. The rounding is done here on natural numbers: a
quotient is cut at the last bit that the format has for its size, and what was cut off decides.

A finite number of the format is a mantissa below 2^53 times a power of two from 2^-1074 on, and
its bits count the numbers up from zero. So rounding up is to add one to the bits, also where the
mantissa overflows into the next power, and infinity is what comes after the largest.
-/

namespace Abnf.Number

/-- A number of the binary64 format by its bits. -/
structure Binary64 where
  bits : Nat
  deriving DecidableEq, Repr

namespace Binary64

/-- What the bits of a number count up by when its power of two goes up by one: two to the 52nd. -/
def binade : Nat := 0x10000000000000

/-- The bits of infinity. -/
def infinityBits : Nat := 0x7FF0000000000000

/-- The bit that makes a number negative. -/
def signBit : Nat := 0x8000000000000000

/-- The mantissa of a quotient cut after a power of two, rounded to the nearest, ties to even. -/
def roundQuotient (num den : Nat) : Nat :=
  let cut := num / den
  let rest := 2 * (num % den)
  if rest < den then cut
  else if rest = den ∧ cut % 2 = 0 then cut
  else cut + 1

/--
The bits of the quotient of two positive numbers. With `e` for the largest power of two that is not
greater than the quotient, the last bit stands for `2^(e - 52)`, but never for less than `2^-1074`.
-/
def ofQuotient (num den : Nat) : Nat :=
  let guess : Int := (num.log2 : Int) - den.log2
  let below : Bool :=
    if guess < 0 then num <<< guess.natAbs < den else num < den <<< guess.natAbs
  let exponent : Int := if below then guess - 1 else guess
  let last : Int := max (exponent - 52) (-1074)
  let mantissa :=
    if last < 0 then roundQuotient (num <<< last.natAbs) den
    else roundQuotient num (den <<< last.natAbs)
  min infinityBits ((last + 1074).toNat * binade + mantissa)

/-- A power of ten. -/
def tenTo (exponent : Nat) : Nat := Nat.pow 10 exponent

/-- Beyond so many places before or after the point a number is infinite or zero. -/
def placeLimit : Int := 400

/-- The number `digits * 10^exponent`, negative or not. `places` is how many digits there are. -/
def ofDecimal (negative : Bool) (digits places : Nat) (exponent : Int) : Binary64 :=
  let magnitude :=
    if digits = 0 ∨ places + exponent < -placeLimit then 0
    else if placeLimit < exponent then infinityBits
    else if exponent < 0 then ofQuotient digits (tenTo exponent.natAbs)
    else ofQuotient (digits * tenTo exponent.natAbs) 1
  ⟨if negative then signBit + magnitude else magnitude⟩

/-- Whether a number is negative, minus zero included. -/
def isNegative (x : Binary64) : Bool := signBit ≤ x.bits

/-- The bits without the sign. -/
def magnitude (x : Binary64) : Nat := x.bits % signBit

/-- Whether a number is neither infinite nor undefined. -/
def isFinite (x : Binary64) : Bool := x.magnitude < infinityBits

/-- The mantissa of a finite number, and the power of two that it is multiplied with. -/
def parts (x : Binary64) : Nat × Int :=
  let field : Nat := x.magnitude / binade
  let fraction : Nat := x.magnitude % binade
  if field = 0 then (fraction, -1074) else (binade + fraction, (field : Int) - 1075)

/-- The integer that a number is, if it is one. -/
def toInt? (x : Binary64) : Option Int :=
  if !x.isFinite then none
  else
    let (mantissa, power) := x.parts
    let size : Option Nat :=
      if 0 ≤ power then some (mantissa <<< power.natAbs)
      else if mantissa % (1 <<< power.natAbs) = 0 then some (mantissa >>> power.natAbs)
      else none
    size.map fun n => if x.isNegative then -(n : Int) else n

/-- The sixteen hexadecimal digits of the bits. -/
def hex (x : Binary64) : List Char := (Nat.toDigits 16 x.bits).leftpad 16 '0'

end Binary64

end Abnf.Number
