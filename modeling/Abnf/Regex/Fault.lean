import Abnf.Text.Location
import Abnf.Text.Numeral
import Abnf.Text.Quoted

/-!
# What can be wrong with an expression

An expression that cannot be read fails for one of the causes below, at a position. The causes name
what the expression does wrong; their wording is kept in one place. Some of them are not faults of
the notation: a repeat count or a look behind too large to be carried out, a numeral too long to be
read, and two sets of flags that exclude each other.

The position is exact for flags that are not at the start, which is the one fault that a caller of
the library gets to see it of. Elsewhere it may be off by some characters.
-/

namespace Abnf.Regex

/-- Why an expression is refused. -/
inductive Cause where
  /-- A backslash before something it has no meaning for. -/
  | badEscape (escape : List Char)
  /-- A backslash at the end. -/
  | escapeAtEnd
  /-- Too few digits after `\x`, `\u` or `\U`. -/
  | incompleteEscape (escape : List Char)
  /-- Three octal digits above 377. -/
  | octalTooLarge (escape : List Char)
  /-- A character set without its closing bracket. -/
  | unterminatedSet
  /-- A range whose ends are the wrong way around, or are no single characters. -/
  | badRange
  /-- A quantifier with nothing before it that can be repeated. -/
  | nothingToRepeat
  /-- A quantifier after a quantifier. -/
  | multipleRepeat
  /-- Bounds of a repeat that are the wrong way around. -/
  | repeatOrder
  /-- A repeat count that is too large to be carried out. -/
  | repeatTooLarge
  /-- A repeat count with too many digits. -/
  | repeatTooLong (long : Text.NumeralTooLong)
  /-- A closing parenthesis with no group to close. -/
  | unbalanced
  /-- A group without its closing parenthesis. -/
  | unterminatedGroup
  /-- A comment without its closing parenthesis. -/
  | unterminatedComment
  /-- The expression ends inside the opening of a group. -/
  | unexpectedEnd
  /-- An opening of a group that means nothing. -/
  | unknownExtension (opening : List Char)
  /-- A name that does not end. -/
  | unterminatedName (terminator : Char)
  /-- A group name that is no identifier, nor a number where there may be one. -/
  | badName (name : List Char)
  /-- The number of no group. -/
  | badNumber
  /-- A group name used a second time. -/
  | nameTaken (name : List Char) (group earlier : Nat)
  /-- A reference to a name that no group before it has. -/
  | unknownName (name : List Char)
  /-- A reference to a number that no group before it has. -/
  | unknownGroup (group : Nat)
  /-- A name that no character has. -/
  | unknownCharacter (name : List Char)
  /-- A reference to a group from inside it. -/
  | openGroup
  /-- A reference inside a lookbehind to a group of the same lookbehind. -/
  | groupOfLookbehind
  /-- A lookbehind that can take more than one number of characters. -/
  | variableLookbehind
  /-- A lookbehind that takes too many characters to be carried out. -/
  | lookbehindTooWide
  /-- A third alternative where a group decides between two. -/
  | tooManyBranches
  /-- A flag letter that there is not. -/
  | unknownFlag
  /-- A construct that does not go on as it should. -/
  | missing (expected : String)
  /-- The locale flag in an expression over text. -/
  | localeFlag
  /-- Two flags of which only one can be in force. -/
  | alphabetConflict
  /-- One of `a`, `u` and `L` switched off. -/
  | alphabetOff
  /-- A flag that a group switches both on and off. -/
  | flagOnAndOff
  /-- Flags for the whole expression anywhere but at its start. -/
  | flagsNotAtStart
  /-- The locale flag given for an expression over text. -/
  | localeOverText
  /-- The flags `a` and `u` together. -/
  | asciiAndUnicode
  deriving DecidableEq, Repr

namespace Cause

/-- What is said of a cause. -/
def message : Cause → String
  | badEscape escape => "bad escape " ++ String.ofList escape
  | escapeAtEnd => "bad escape (end of pattern)"
  | incompleteEscape escape => "incomplete escape " ++ String.ofList escape
  | octalTooLarge escape =>
    "octal escape value " ++ String.ofList escape ++ " outside of range 0-0o377"
  | unterminatedSet => "unterminated character set"
  | badRange => "bad character range"
  | nothingToRepeat => "nothing to repeat"
  | multipleRepeat => "multiple repeat"
  | repeatOrder => "min repeat greater than max repeat"
  | repeatTooLarge => "the repetition number is too large"
  | repeatTooLong long => long.message
  | unbalanced => "unbalanced parenthesis"
  | unterminatedGroup => "missing ), unterminated subpattern"
  | unterminatedComment => "missing ), unterminated comment"
  | unexpectedEnd => "unexpected end of pattern"
  | unknownExtension opening => "unknown extension " ++ String.ofList opening
  | unterminatedName terminator =>
    "missing " ++ String.singleton terminator ++ ", unterminated name"
  | badName name => "bad character in group name " ++ String.ofList (Text.quoted name)
  | nameTaken name group earlier =>
    "redefinition of group name " ++ String.ofList (Text.quoted name) ++ " as group "
      ++ toString group ++ "; was group " ++ toString earlier
  | badNumber => "bad group number"
  | unknownName name => "unknown group name " ++ String.ofList (Text.quoted name)
  | unknownGroup group => "invalid group reference " ++ toString group
  | unknownCharacter name => "undefined character name " ++ String.ofList (Text.quoted name)
  | openGroup => "cannot refer to an open group"
  | groupOfLookbehind => "cannot refer to group defined in the same lookbehind subpattern"
  | variableLookbehind => "look-behind requires fixed-width pattern"
  | lookbehindTooWide => "looks too much behind"
  | tooManyBranches => "conditional backref with more than two branches"
  | unknownFlag => "unknown flag"
  | missing expected => "missing " ++ expected
  | localeFlag => "bad inline flags: cannot use 'L' flag with a str pattern"
  | alphabetConflict => "bad inline flags: flags 'a', 'u' and 'L' are incompatible"
  | alphabetOff => "bad inline flags: cannot turn off flags 'a', 'u' and 'L'"
  | flagOnAndOff => "bad inline flags: flag turned on and off"
  | flagsNotAtStart => "global flags not at the start of the expression"
  | localeOverText => "cannot use LOCALE flag with a str pattern"
  | asciiAndUnicode => "ASCII and UNICODE flags are incompatible"

/-- Whether a cause is tied to a position of the expression. -/
def isLocated : Cause → Bool
  | repeatTooLarge | repeatTooLong _ | variableLookbehind | lookbehindTooWide | localeOverText
  | asciiAndUnicode => false
  | _ => true

end Cause

/-- A cause, and how many characters before the one being read it lies. -/
structure Fault where
  cause : Cause
  back : Nat := 0
  deriving DecidableEq, Repr

/-- Why an expression is refused, and where. -/
structure Error where
  cause : Cause
  position : Nat
  deriving DecidableEq, Repr

/--
What is said of an error in an expression. The line and column are given only if the expression has
more than one line.
-/
def Error.message (e : Error) (source : List Char) : String :=
  if e.cause.isLocated then
    let place := e.cause.message ++ " at position " ++ toString e.position
    if source.contains '\n' then
      place ++ " (" ++ (Text.Location.ofPosition source e.position).describe ++ ")"
    else place
  else e.cause.message

end Abnf.Regex
