import Abnf.Grammar.Reader
import Abnf.Template.Render

/-!
# From grammar text to expressions

The whole way: a template is filled with values, the text is read as a grammar in which the
patterns among the values are rules that are given, and each rule is written as a regular
expression or read as a pattern ready to match. The rules come in order of their first definition,
and the first thing that goes wrong on the way is what is reported.
-/

namespace Abnf

variable [Interpreter]

/-- Why a grammar could not be compiled. -/
inductive CompileError where
  /-- The template could not be filled. -/
  | template (fault : Template.Fault)
  /-- The filled text is no grammar. -/
  | grammar (text : List Char) (error : Grammar.Error)
  /-- A rule is no regular expression on its own. -/
  | expression (source : List Char) (error : Regex.Error)
  deriving DecidableEq, Repr

/-- The rules that a filled template reads as. -/
def readRendered (rendered : Template.Rendered) : Except CompileError Grammar.Rules :=
  let given := rendered.named.map fun (name, source) => (name, .foreign source)
  (Grammar.read given rendered.text).mapError (.grammar rendered.text)

/-- The rules of a template filled with values. -/
def compile (source : Datum) (values : List Datum) : Except CompileError Grammar.Rules := do
  let rendered ← (do (← Template.ofDatum source).render values).mapError .template
  readRendered rendered

/-- The rules of a text without gaps. -/
def compileText (source : List Char) : Except CompileError Grammar.Rules :=
  compile (.text source) []

namespace Grammar.Rules

/-- The rules as regular expressions. -/
def sources (rules : Rules) : List (Name × List Char) :=
  rules.map fun (name, expr) => (name, expr.source)

/-- The rules as patterns under flags. -/
def patterns (rules : Rules) (flags : Regex.Flags) :
    Except CompileError (List (Name × Regex.Pattern)) :=
  rules.sources.mapM fun (name, source) =>
    match Regex.Pattern.compile source flags with
    | .ok pattern => .ok (name, pattern)
    | .error e => .error (.expression source e)

end Grammar.Rules

/-- The rules of a template filled with values, as patterns under flags. -/
def compilePatterns (source : Datum) (values : List Datum) (flags : Regex.Flags) :
    Except CompileError (List (Grammar.Name × Regex.Pattern)) := do
  (← compile source values).patterns flags

end Abnf
