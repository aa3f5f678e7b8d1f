import Abnf.Text.Casing

/-!
# The flags of a regular expression

A flag changes how the expression is read (`x`), what its characters stand for (`a`, `i`, `s`) or
where its anchors hold (`m`). `u` asks for what holds anyhow and excludes `a`; `L` is a flag of
expressions over bytes, known here only so that it can be refused.

Flags come from two sides: those given for the whole expression, and those a group such as
`(?i-s:…)` switches on and off for its body.

The template flag `t`, which forbids repeats and does nothing else, is left out: its letter is none
of those that a group may name.
-/

namespace Abnf.Regex

/-- A flag by its letter. -/
inductive Flag where
  /-- `a`: `\w`, `\d`, `\s`, `\b` and case go by ASCII. -/
  | ascii
  /-- `i`: letters that differ only in case are the same. -/
  | ignoreCase
  /-- `L`: case goes by the locale; never allowed over text. -/
  | locale
  /-- `m`: `^` and `$` hold at every line. -/
  | multiline
  /-- `s`: `.` stands for a newline too. -/
  | dotAll
  /-- `u`: the opposite of `a`. -/
  | unicode
  /-- `x`: white space and `#` comments between items are skipped. -/
  | verbose
  deriving DecidableEq, Repr

namespace Flag

/-- Every flag, in the order in which flags are written. -/
def all : List Flag := [.ascii, .ignoreCase, .locale, .multiline, .dotAll, .unicode, .verbose]

/-- The letter of a flag. -/
def letter : Flag → Char
  | ascii => 'a'
  | ignoreCase => 'i'
  | locale => 'L'
  | multiline => 'm'
  | dotAll => 's'
  | unicode => 'u'
  | verbose => 'x'

/-- The flag of a letter. -/
def ofLetter? : Char → Option Flag
  | 'a' => some ascii
  | 'i' => some ignoreCase
  | 'L' => some locale
  | 'm' => some multiline
  | 's' => some dotAll
  | 'u' => some unicode
  | 'x' => some verbose
  | _ => none

/-- The three flags of which only one can be in force. -/
def isAlphabet : Flag → Bool
  | ascii | locale | unicode => true
  | _ => false

end Flag

/-- A set of flags. -/
structure Flags where
  ascii : Bool := false
  ignoreCase : Bool := false
  locale : Bool := false
  multiline : Bool := false
  dotAll : Bool := false
  unicode : Bool := false
  verbose : Bool := false
  deriving DecidableEq, Repr, Inhabited

namespace Flags

/-- No flag. -/
def empty : Flags := {}

/-- Whether a flag is in the set. -/
def has (fs : Flags) : Flag → Bool
  | .ascii => fs.ascii
  | .ignoreCase => fs.ignoreCase
  | .locale => fs.locale
  | .multiline => fs.multiline
  | .dotAll => fs.dotAll
  | .unicode => fs.unicode
  | .verbose => fs.verbose

/-- The set with one flag put in or taken out. -/
def set (fs : Flags) (f : Flag) (on : Bool) : Flags :=
  match f with
  | .ascii => { fs with ascii := on }
  | .ignoreCase => { fs with ignoreCase := on }
  | .locale => { fs with locale := on }
  | .multiline => { fs with multiline := on }
  | .dotAll => { fs with dotAll := on }
  | .unicode => { fs with unicode := on }
  | .verbose => { fs with verbose := on }

/-- The set with the flags of a list put in. -/
def insertAll (fs : Flags) (on : List Flag) : Flags := on.foldl (·.set · true) fs

/-- The set of the flags of a list. -/
def ofList (on : List Flag) : Flags := empty.insertAll on

/-- The flags of the set, in the order in which flags are written. -/
def toList (fs : Flags) : List Flag := Flag.all.filter fs.has

/--
The flags in force inside a group that switches some on and some off. To switch on one of `a`, `L`
and `u` is to leave the others.
-/
def within (fs : Flags) (on off : List Flag) : Flags :=
  let base :=
    if on.any Flag.isAlphabet then { fs with ascii := false, locale := false, unicode := false }
    else fs
  off.foldl (·.set · false) (base.insertAll on)

/-- The flags of a finished expression: it goes by Unicode unless it goes by ASCII. -/
def settled (fs : Flags) : Flags := { fs with unicode := fs.unicode || !fs.ascii }

end Flags

/-- What makes two characters the same for an expression. -/
inductive CaseRule where
  /-- Only to be the same character. -/
  | exact
  /-- To differ at most in the case of the letters `A` to `Z`. -/
  | ascii
  /-- To differ at most in case, in any script. -/
  | full
  deriving DecidableEq, Repr

namespace CaseRule

/-- The other characters that count as the same. -/
def variants : CaseRule → Nat → List Nat
  | exact, _ => []
  | ascii, code => Text.asciiCaseVariants code
  | full, code => Text.caseVariants code

/-- Whether a character of the expression stands for a character of the text. -/
def alike (rule : CaseRule) (code other : Nat) : Bool :=
  other = code || (rule.variants other).contains code

/-- The character that stands for a character when captured text is compared. -/
def fold : CaseRule → Nat → Nat
  | exact, code => code
  | ascii, code => if Text.isAsciiCapital code then code + 32 else code
  | full, code => Text.lower code

end CaseRule

/-- How the flags in force tell characters apart. -/
def Flags.caseRule (fs : Flags) : CaseRule :=
  if fs.ignoreCase then (if fs.ascii then .ascii else .full) else .exact

end Abnf.Regex
