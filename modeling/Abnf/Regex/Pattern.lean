import Abnf.Regex.Reader
import Abnf.Regex.Matching

/-!
# Patterns

A pattern is an expression that has been read: the text it was read from, the flags it ended up
with, its groups, and what it says. It can be tried at a place of a text, asked for a match of a
whole text, or looked for from a place on.
-/

namespace Abnf.Regex

/-- A regular expression ready to match. -/
structure Pattern where
  /-- The text it was read from. -/
  source : List Char
  /-- Its flags, those that it sets itself included. -/
  flags : Flags
  /-- The names of its groups in order of their numbers. -/
  groups : List (Option (List Char))
  /-- What it says. -/
  node : Node
  deriving DecidableEq, Repr

/-- What a pattern took from a text. -/
structure Match where
  /-- The whole of it. -/
  whole : List Char
  /-- What each group took last, in order of their numbers; none for a group that took no part. -/
  groups : List (Option (List Char))
  /-- What the named groups took that took part, in order of their numbers. -/
  named : List (List Char × List Char)
  deriving DecidableEq, Repr

namespace Pattern

/-- Reads an expression under flags. -/
def compile [Interpreter] (source : List Char) (flags : Flags := {}) : Except Error Pattern := do
  let s ← (State.start flags).readFrom 0 source
  return {
    source := source
    flags := s.flags.settled
    groups := s.groups.map (·.name)
    node := s.level.body }

/-- Where the first way to match from a place ends. -/
def end? (p : Pattern) (place : Place) : Option Place := p.node.attempt place some

/-- Where the first way to match all of the text from a place on ends. -/
def fullEnd? (p : Pattern) (place : Place) : Option Place :=
  p.node.attempt place fun q => if q.after.isEmpty then some q else none

/-- What was taken between two places. -/
def extract (p : Pattern) (since stop : Place) : Match :=
  let numbered := p.groups.mapIdx fun i name => (name, stop.captured? (i + 1))
  { whole := since.upTo stop
    groups := numbered.map (·.2)
    named := numbered.filterMap fun (name, taken) => do return (← name, ← taken) }

/-- The match at a place. -/
def matchAt? (p : Pattern) (place : Place) : Option Match :=
  (p.end? place).map (p.extract place)

/-- The match of a whole text. -/
def fullMatch? (p : Pattern) (text : List Char) : Option Match :=
  (p.fullEnd? (.start text)).map (p.extract (.start text))

/--
The first match at a place or after it, tried at each of the characters to come and at the end.
-/
def searchFrom? (p : Pattern) (before : List Char) : List Char → Option Match
  | [] => p.matchAt? { before := before, after := [] }
  | c :: rest =>
    (p.matchAt? { before := before, after := c :: rest }).orElse fun _ =>
      p.searchFrom? (c :: before) rest

/-- The first match in a text. -/
def search? (p : Pattern) (text : List Char) : Option Match := p.searchFrom? [] text

end Pattern

end Abnf.Regex
