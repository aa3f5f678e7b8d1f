import Abnf.Cursor.Basic
import Abnf.Datum.Basic

/-!
# Requests to a cursor

A request asks a cursor to try something with a datum of any kind. A datum of the wrong kind is
refused without a look at the text; the cursor stays where it is then, as it does when a try fails.
-/

namespace Abnf.Cursor

/-- What a cursor can be asked to try. -/
inductive Request where
  /-- A literal. -/
  | literal
  /-- One match of a pattern. -/
  | pattern
  /-- As many matches of a pattern as possible. -/
  | repeatedly
  deriving DecidableEq, Repr

/-- What a try took. -/
inductive Taken where
  | text (text : List Char)
  | groups (groups : Regex.Match)
  deriving DecidableEq, Repr

/-- All that a try took. -/
def Taken.whole : Taken → List Char
  | text chars => chars
  | groups found => found.whole

/-- What is wrong with a request or with the start of a cursor. -/
inductive Fault where
  /-- The text is no text. -/
  | notText
  /-- The position is no integer. -/
  | positionKind
  /-- The text has no such position. -/
  | positionRange
  /-- The literal is no text. -/
  | literalKind
  /-- The pattern is none. -/
  | patternKind (request : Request)
  /-- The pattern is over bytes. -/
  | patternOverBytes (request : Request)
  deriving DecidableEq, Repr

/-- The name of a request, as messages use it. -/
def Request.name : Request → String
  | literal => "Matcher.match_literal"
  | pattern => "Matcher.match_pattern"
  | repeatedly => "Matcher.match_repeatedly"

/-- What is said of a fault. -/
def Fault.message : Fault → String
  | notText => "text must be a string."
  | positionKind | positionRange =>
    "position must be an integer between 0 and the length of the text."
  | literalKind => Request.literal.name ++ " argument must be a string."
  | patternKind request => request.name ++ " argument must be a compiled re.Pattern."
  | patternOverBytes request => request.name ++ " argument must be a str pattern."

/-- The text that a cursor is to move over. -/
def requireText : Datum → Except Fault (List Char)
  | .text chars => .ok chars
  | _ => .error .notText

/-- A cursor over a datum at a position that is a datum too. -/
def ofData (text position : Datum) : Except Fault Cursor := do
  let text ← requireText text
  match position with
  | .int n =>
    if n < 0 then throw .positionRange
    else
      match at? text n.toNat with
      | some c => return c
      | none => throw .positionRange
  | _ => throw .positionKind

/-- The pattern that a request is about. -/
def requirePattern (request : Request) : Datum → Except Fault Regex.Pattern
  | .pattern p => .ok p.pattern
  | .bytesPattern => .error (.patternOverBytes request)
  | _ => .error (.patternKind request)

/-- Tries what is asked for. Nothing is taken if the try fails. -/
def ask? (c : Cursor) (request : Request) (argument : Datum) :
    Except Fault (Option (Taken × Cursor)) :=
  match request with
  | .literal =>
    match argument with
    | .text chars => .ok ((c.literal? chars).map fun d => (.text chars, d))
    | _ => .error .literalKind
  | .pattern => do
    let pattern ← requirePattern request argument
    return (c.match? pattern).map fun (found, d) => (.groups found, d)
  | .repeatedly => do
    let pattern ← requirePattern request argument
    return (c.repeatedly? pattern).map fun (chars, d) => (.text chars, d)

/-- Where a cursor stands after a request. -/
def after? (c : Cursor) (request : Request) (argument : Datum) : Cursor :=
  match c.ask? request argument with
  | .ok (some (_, d)) => d
  | _ => c

end Abnf.Cursor
