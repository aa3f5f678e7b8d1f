import Abnf.Template.Fault

/-!
# Patterns as parts of a grammar

A pattern that becomes part of a larger expression brings its flags along: they are put into the
parentheses around it. Flag groups at its start are left out, as they may stand only at the start
of a whole expression, and what they set is among its flags already. A verbose pattern may end in a
comment, so a newline is put before the closing parenthesis.
-/

namespace Abnf.Template

/-- The flags that a group can switch on, in the order in which they are written. -/
def groupFlags : List Regex.Flag := [.ascii, .ignoreCase, .multiline, .dotAll, .verbose]

/-- What is left after a flag group, if the text starts with one. -/
def flagGroup? : List Char → Option (List Char)
  | '(' :: '?' :: cs =>
    match cs.takeWhile (fun c => (Regex.Flag.ofLetter? c).isSome),
        cs.dropWhile (fun c => (Regex.Flag.ofLetter? c).isSome) with
    | _ :: _, ')' :: rest => some rest
    | _, _ => none
  | _ => none

/-- What is left after flag groups; at most so many. -/
def dropFlagGroupsUpTo : Nat → List Char → List Char
  | 0, cs => cs
  | n + 1, cs =>
    match flagGroup? cs with
    | some rest => dropFlagGroupsUpTo n rest
    | none => cs

/-- What is left after all flag groups at the start of a text. -/
def dropFlagGroups (cs : List Char) : List Char := dropFlagGroupsUpTo cs.length cs

/-- A pattern in parentheses that put its flags into force. -/
def wrap (pattern : Regex.Pattern) : List Char :=
  let flags := (groupFlags.filter pattern.flags.has).map Regex.Flag.letter
  let ending := if pattern.flags.verbose then ['\n', ')'] else [')']
  '(' :: '?' :: flags ++ ':' :: dropFlagGroups pattern.source ++ ending

/-- A pattern in parentheses, if it can be read there. -/
def inline [Interpreter] (pattern : Regex.Pattern) : Except Fault (List Char) :=
  let wrapped := wrap pattern
  match Regex.Pattern.compile wrapped with
  | .ok _ => .ok wrapped
  | .error e => .error (.notInlinable pattern.source wrapped e)

end Abnf.Template
