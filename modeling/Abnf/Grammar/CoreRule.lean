/-!
# The core rules

The sixteen rules of RFC 5234, Appendix B.1, that every grammar may refer to and none may define.
Each is used as the text of a regular expression that needs no parentheses around it.
-/

namespace Abnf.Grammar

/-- A core rule. -/
inductive CoreRule where
  /-- `%x41-5A / %x61-7A` -/
  | alpha
  /-- `"0" / "1"` -/
  | bit
  /-- `%x01-7F` -/
  | char
  /-- `%x0D` -/
  | cr
  /-- `CR LF` -/
  | crlf
  /-- `%x00-1F / %x7F` -/
  | ctl
  /-- `%x30-39` -/
  | digit
  /-- `%x22` -/
  | dquote
  /-- `DIGIT / "A" / "B" / "C" / "D" / "E" / "F"` -/
  | hexdig
  /-- `%x09` -/
  | htab
  /-- `%x0A` -/
  | lf
  /-- `*(WSP / CRLF WSP)` -/
  | lwsp
  /-- `%x00-FF` -/
  | octet
  /-- `%x20` -/
  | sp
  /-- `%x21-7E` -/
  | vchar
  /-- `SP / HTAB` -/
  | wsp
  deriving DecidableEq, Repr

namespace CoreRule

/-- Every core rule, in order of name. -/
def all : List CoreRule :=
  [alpha, bit, char, cr, crlf, ctl, digit, dquote, hexdig, htab, lf, lwsp, octet, sp, vchar, wsp]

/-- The name of a core rule, in lower case as all names are looked up. -/
def name : CoreRule → List Char
  | alpha => ['a', 'l', 'p', 'h', 'a']
  | bit => ['b', 'i', 't']
  | char => ['c', 'h', 'a', 'r']
  | cr => ['c', 'r']
  | crlf => ['c', 'r', 'l', 'f']
  | ctl => ['c', 't', 'l']
  | digit => ['d', 'i', 'g', 'i', 't']
  | dquote => ['d', 'q', 'u', 'o', 't', 'e']
  | hexdig => ['h', 'e', 'x', 'd', 'i', 'g']
  | htab => ['h', 't', 'a', 'b']
  | lf => ['l', 'f']
  | lwsp => ['l', 'w', 's', 'p']
  | octet => ['o', 'c', 't', 'e', 't']
  | sp => ['s', 'p']
  | vchar => ['v', 'c', 'h', 'a', 'r']
  | wsp => ['w', 's', 'p']

/-- The core rule of a name in lower case. -/
def ofName? (name : List Char) : Option CoreRule := all.find? (·.name = name)

/-- A core rule as a regular expression. -/
def source : CoreRule → List Char
  | alpha => ['[', 'A', '-', 'Z', 'a', '-', 'z', ']']
  | bit => ['[', '0', '1', ']']
  | char => ['[', '\\', 'x', '0', '1', '-', '\\', 'x', '7', 'f', ']']
  | cr => ['\\', 'r']
  | crlf => ['\\', 'r', '\\', 'n']
  | ctl => ['[', '\\', 'x', '0', '0', '-', '\\', 'x', '1', 'f', '\\', 'x', '7', 'f', ']']
  | digit => ['[', '0', '-', '9', ']']
  | dquote => ['"']
  | hexdig => ['[', '0', '-', '9', 'A', '-', 'F', 'a', '-', 'f', ']']
  | htab => ['\\', 't']
  | lf => ['\\', 'n']
  | lwsp => ['(', '?', ':', '[', ' ', '\\', 't', ']', '|', '\\', 'r', '\\', 'n',
      '[', ' ', '\\', 't', ']', ')', '*']
  | octet => ['[', '\\', 'x', '0', '0', '-', '\\', 'x', 'f', 'f', ']']
  | sp => [' ']
  | vchar => ['[', '\\', 'x', '2', '1', '-', '\\', 'x', '7', 'e', ']']
  | wsp => ['[', ' ', '\\', 't', ']']

end CoreRule

end Abnf.Grammar
