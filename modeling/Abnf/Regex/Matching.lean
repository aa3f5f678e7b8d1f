import Abnf.Regex.Place

/-!
# How an expression matches

An expression tries its ways of matching in a fixed order and takes the first that lets the rest of
the match succeed. The rest is a parameter: an `Attempt` is given a place and what is still to be
done after it, and answers with the place where everything ended. Alternatives come in their order,
a repeat goes on as long as it can before it gives rounds back, and the other way about if it is
lazy.

Rounds beyond the least number have to move: after a round that took nothing, no further round is
tried. As each but the last of them therefore takes a character, one more than the characters left
is as many as there can be, and that bounds the recursion.

A part that never gives back, an `atomic` node, is matched on its own and then left as it is. What a
group took in a try that came to nothing is forgotten there as everywhere else.
-/

namespace Abnf.Regex

/-- A way to go on from a place, given what is to follow. -/
abbrev Attempt := Place → (Place → Option Place) → Option Place

namespace Attempt

/-- So many rounds. -/
def times (round : Attempt) : Nat → Attempt
  | 0 => fun p k => k p
  | n + 1 => fun p k => round p fun q => times round n q k

/--
Up to so many rounds more. `last` is where the round before started; a round that ends where it
started is the last one.
-/
def upTo (round : Attempt) (lazy : Bool) : Nat → (last : Option Nat) → Attempt
  | 0, _ => fun p k => k p
  | n + 1, last => fun p k =>
    if last = some p.index then k p
    else if lazy then
      (k p).orElse fun _ => round p fun q => upTo round lazy n (some p.index) q k
    else
      (round p fun q => upTo round lazy n (some p.index) q k).orElse fun _ => k p

/-- How many rounds beyond the least number can be made. -/
def spare (least : Nat) (most : Option Nat) (p : Place) : Nat :=
  match most with
  | none => p.after.length + 1
  | some m => min (m - least) (p.after.length + 1)

/-- From `least` to `most` rounds. -/
def rounds (round : Attempt) (lazy : Bool) (least : Nat) (most : Option Nat) : Attempt :=
  fun p k => times round least p fun q => upTo round lazy (spare least most q) none q k

end Attempt

/-- The ways of an expression, tried in order until what follows succeeds. -/
def Node.attempt : Node → Attempt
  | .empty => fun p k => k p
  | .char rule code => fun p k => (p.take? fun c => rule.alike code c.toNat).bind k
  | .any newline => fun p k => (p.take? fun c => newline || c ≠ '\n').bind k
  | .set rule chars => fun p k => (p.take? (chars.holds rule)).bind k
  | .anchor asked => fun p k => if p.satisfies asked then k p else none
  | .again rule group => fun p k =>
    ((p.captured? group).bind
      (p.takeAll? fun c d => rule.fold c.toNat = rule.fold d.toNat)).bind k
  | .ifTaken group yes no => fun p k =>
    if p.hasTaken group then yes.attempt p k else no.attempt p k
  | .seq a b => fun p k => a.attempt p fun q => b.attempt q k
  | .alt a b => fun p k => (a.attempt p k).orElse fun _ => b.attempt p k
  | .capture group body => fun p k => body.attempt (p.reopen group) fun q => k (q.record group p)
  | .iterate lazy least most body => Attempt.rounds body.attempt lazy least most
  | .atomic body => fun p k => (body.attempt p some).bind k
  | .ahead negated body => fun p k =>
    match body.attempt p some, negated with
    | some q, false => k { p with captures := q.captures }
    | none, true => k p
    | _, _ => none
  | .behind negated width body => fun p k =>
    match (p.back? width).bind fun q => body.attempt q some, negated with
    | some q, false => k { p with captures := q.captures }
    | none, true => k p
    | _, _ => none

end Abnf.Regex
