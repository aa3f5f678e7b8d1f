/-!
# Characters in sixteen bits

A text in which characters are spelled by sixteen-bit numbers spells those beyond U+FFFF as pairs:
a high half from U+D800 to U+DBFF and a low half from U+DC00 to U+DFFF. Halves that are not paired
up are no characters, but a text may hold them all the same, so texts are lists of code points
here.
-/

namespace Abnf.Text

/-- The first half of a pair. -/
def isHighHalf (code : Nat) : Bool := 0xD800 ≤ code && code ≤ 0xDBFF

/-- The second half of a pair. -/
def isLowHalf (code : Nat) : Bool := 0xDC00 ≤ code && code ≤ 0xDFFF

/-- The character that a pair spells. -/
def joinHalves (high low : Nat) : Nat := 0x10000 + (high - 0xD800) * 0x400 + (low - 0xDC00)

/-- The code points of a text in which pairs of halves are joined and lone halves kept. -/
def joinPairs : List Nat → List Nat
  | high :: low :: rest =>
    if isHighHalf high && isLowHalf low then joinHalves high low :: joinPairs rest
    else high :: joinPairs (low :: rest)
  | codes => codes

/-- The sixteen-bit numbers that spell a code point. -/
def units (code : Nat) : List Nat :=
  if code < 0x10000 then [code]
  else [0xD800 + (code - 0x10000) / 0x400, 0xDC00 + (code - 0x10000) % 0x400]

end Abnf.Text
