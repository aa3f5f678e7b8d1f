import Abnf.Text.CaseTable

/-!
# Upper case, lower case, and letters that differ only in case

Two questions are answered here. The first is what a character's upper and lower case forms are; a
character whose form is several characters is left alone by everything that asks, so it has none.
The second is which characters count as the same letter when case is ignored. The two do not agree
everywhere: the Kelvin sign is the same letter as `k`, although no capital of `k` is the Kelvin
sign.

The code points below U+0080 are decided without a look at the tables.
-/

namespace Abnf.Text

/-- The capital letters `A` to `Z`. -/
def isAsciiCapital (code : Nat) : Bool := 65 ≤ code && code ≤ 90

/-- The small letters `a` to `z`. -/
def isAsciiSmall (code : Nat) : Bool := 97 ≤ code && code ≤ 122

/-- The small letter of a capital that is in turn its capital. -/
def small? (code : Nat) : Option Nat :=
  if isAsciiCapital code then some (code + 32)
  else if code < 128 then none
  else capitalRuns.findSome? (·.small? code)

/-- The capital of a small letter that is in turn its small letter. -/
def capital? (code : Nat) : Option Nat :=
  if isAsciiSmall code then some (code - 32)
  else if code < 128 then none
  else capitalRuns.findSome? (·.capital? code)

/-- The single character that stands for a character in upper case, if need be itself. -/
def upper (code : Nat) : Nat :=
  match capital? code with
  | some capital => capital
  | none => if code < 128 then code else (oneWayCapitals.lookup code).getD code

/-- The single character that stands for a character in lower case, if need be itself. -/
def lower (code : Nat) : Nat :=
  match small? code with
  | some small => small
  | none =>
    if code < 128 then code
    else ((oneWaySmalls.lookup code).or (partnerRuns.findSome? (·.small? code))).getD code

/--
The upper and lower case form of a character that has two different ones, each a single character.
-/
def caseForms? (code : Nat) : Option (Nat × Nat) :=
  if (128 ≤ code && severalRanges.has code) || upper code = lower code then none
  else some (upper code, lower code)

/-- The letters other than the one given that differ from it only in case. -/
def caseVariants (code : Nat) : List Nat :=
  match caseGroups.find? (·.contains code) with
  | some group => group.filter (· ≠ code)
  | none =>
    ((small? code).or (capital? code)).or
        ((partnerRuns.findSome? (·.small? code)).or (partnerRuns.findSome? (·.capital? code)))
      |>.toList

/-- As `caseVariants`, for the letters `A` to `Z` alone. -/
def asciiCaseVariants (code : Nat) : List Nat :=
  if isAsciiCapital code then [code + 32]
  else if isAsciiSmall code then [code - 32]
  else []

/-- A character with `A` to `Z` put in lower case and everything else left as it is. -/
def asciiLower (c : Char) : Char :=
  if 'A' ≤ c ∧ c ≤ 'Z' then Char.ofNat (c.toNat + 32) else c

end Abnf.Text
