/-!
# Sets of characters as ranges

A property of characters is kept as a sorted list of ranges of code points, both ends included.
Membership is a plain search: the lists are short, and a search over pairs is what the lemmas about
them unfold to.
-/

namespace Abnf.Text

/-- A set of code points as ranges, both ends included. -/
abbrev Ranges := List (Nat × Nat)

/-- Whether a code point lies in one of the ranges. -/
def Ranges.has (ranges : Ranges) (code : Nat) : Bool :=
  ranges.any fun r => r.1 ≤ code && code ≤ r.2

theorem Ranges.has_iff {ranges : Ranges} {code : Nat} :
    ranges.has code = true ↔ ∃ r ∈ ranges, r.1 ≤ code ∧ code ≤ r.2 := by
  simp [Ranges.has]

end Abnf.Text
