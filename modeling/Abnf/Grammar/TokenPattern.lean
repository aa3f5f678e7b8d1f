import Abnf.Regex.Pattern

/-!
# The tokens of a grammar as patterns

The tokens that grammars are read by, each as a regular expression, for use with a cursor of one's
own. The reader does not use them; it has scanners that take the same
(`TokenPattern.match?_eq_scan?`).
-/

namespace Abnf.Grammar

/-- A token of RFC 5234, section 4. -/
inductive TokenPattern where
  /-- A rule name. -/
  | ruleName
  /-- `=` or `=/`. -/
  | definedAs
  /-- A blank, or a line break with a blank after it. -/
  | blank
  /-- A comment without its line end. -/
  | comment
  /-- A line end, with its comment. -/
  | lineEnd
  /-- A repeat. -/
  | bounds
  /-- A quoted string. -/
  | quoted
  /-- A range of numbers. -/
  | numberRange
  /-- A number, or several in a row. -/
  | numberRow
  /-- Prose in angle brackets. -/
  | prose
  deriving DecidableEq, Repr

namespace TokenPattern

/-- A token as a regular expression. -/
def source : TokenPattern → String
  | ruleName => "[A-Za-z][A-Za-z0-9-]*"
  | definedAs => "=/?"
  | blank => r"[ \t]|(?:;[ \t\x21-\x7e]*)?\r?\n[ \t]"
  | comment => r";[ \t\x21-\x7e]*"
  | lineEnd => r"(?:;[ \t\x21-\x7e]*)?\r?\n"
  | bounds => r"(?P<min>[0-9]*)\*(?P<max>[0-9]*)|(?P<exact>[0-9]+)"
  | quoted => r#""(?P<value>[\x20\x21\x23-\x7e]*)""#
  | numberRange => "%(?:b[01]+-[01]+|d[0-9]+-[0-9]+|x[0-9A-F]+-[0-9A-F]+)"
  | numberRow => r"%(?:b[01]+(?:\.[01]+)*|d[0-9]+(?:\.[0-9]+)*|x[0-9A-F]+(?:\.[0-9A-F]+)*)"
  | prose => r"<(?P<value>[\x20-\x3d\x3f-\x7e]*)>"

/-- The flags of a token: case plays no part in numbers. -/
def flags : TokenPattern → Regex.Flags
  | numberRange | numberRow => { ignoreCase := true }
  | _ => {}

/-- A token as a pattern. -/
def pattern [Interpreter] (token : TokenPattern) : Except Regex.Error Regex.Pattern :=
  Regex.Pattern.compile token.source.toList token.flags

end TokenPattern

end Abnf.Grammar
