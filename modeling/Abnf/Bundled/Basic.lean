import Abnf.Bundled.Rfc3339
import Abnf.Bundled.Rfc7231
import Abnf.Bundled.Rfc8259
import Abnf.Compile

/-!
# The grammars that come with the library

Each is named by the document that defines it. The core rules are no grammar text: they are what
every grammar is written over, and are listed with the others by what they stand for.
-/

namespace Abnf

/-- A grammar that comes with the library. -/
inductive Bundled where
  /-- The core rules. -/
  | rfc5234
  /-- Dates and times. -/
  | rfc3339
  /-- Dates in headers. -/
  | rfc7231
  /-- The words of JSON. -/
  | rfc8259
  deriving DecidableEq, Repr

namespace Bundled

/-- The grammar of a document, filled in where it has gaps. -/
def rules [Interpreter] : Bundled → Except CompileError Grammar.Rules
  | rfc5234 => .ok (Grammar.CoreRule.all.map fun rule => (rule.name, .core rule))
  | rfc3339 => compileText rfc3339Text.toList
  | rfc7231 =>
    compile (.text rfc7231Text.toList) [.tuple (monthNames.map fun name => .text name.toList)]
  | rfc8259 => compileText rfc8259Text.toList

end Bundled

end Abnf
