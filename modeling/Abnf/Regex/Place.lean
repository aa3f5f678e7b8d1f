import Abnf.Regex.Node

/-!
# Places in a text

Matching moves through a text from left to right and sometimes looks back. A `Place` keeps the text
on both sides, so that nothing about it has to be looked up elsewhere: the characters passed, the
characters to come, and what the groups have taken on the way.

Texts are lists of `Char`, so that none has a lone surrogate in it: texts that have one are outside
of this model.
-/

namespace Abnf.Regex

/-- What a group took. -/
structure Taken where
  text : List Char
  /-- How many characters come before its end. -/
  stop : Nat
  deriving DecidableEq, Repr

/-- A point in a text, and what the groups have taken on the way to it. -/
structure Place where
  /-- The characters passed, the nearest first. -/
  before : List Char
  /-- The characters to come. -/
  after : List Char
  /-- What each group took last. -/
  captures : List (Nat × Taken) := []
  deriving DecidableEq, Repr

namespace Place

/-- The start of a text. -/
def start (text : List Char) : Place := { before := [], after := text }

/-- How many characters have been passed. -/
def index (p : Place) : Nat := p.before.length

/-- The whole text, of which the place is a point. -/
def text (p : Place) : List Char := p.before.reverse ++ p.after

/-- The place after the next character, if that character is wanted. -/
def take? (p : Place) (wanted : Char → Bool) : Option Place :=
  match p.after with
  | [] => none
  | c :: rest => if wanted c then some { p with before := c :: p.before, after := rest } else none

/-- The place after a stretch of text, each character of which is as wanted. -/
def takeAll? (p : Place) (wanted : Char → Char → Bool) : List Char → Option Place
  | [] => some p
  | c :: cs => (p.take? (wanted c)).bind (·.takeAll? wanted cs)

/-- The place so many characters back. -/
def back? (p : Place) : Nat → Option Place
  | 0 => some p
  | n + 1 =>
    match p.before with
    | [] => none
    | c :: rest => { p with before := rest, after := c :: p.after }.back? n

/-- The characters between a place and a later one. -/
def upTo (p q : Place) : List Char := p.after.take (q.index - p.index)

/-- What a group took last, if it took part. -/
def captured? (p : Place) (group : Nat) : Option (List Char) :=
  (p.captures.lookup group).map (·.text)

/-- Whether a group has taken something. -/
def hasTaken (p : Place) (group : Nat) : Bool := (p.captures.lookup group).isSome

/--
The place where a group opens again. What the group took before counts on until it is closed, unless
it ended before this place.
-/
def reopen (p : Place) (group : Nat) : Place :=
  { p with captures := p.captures.filter fun (g, taken) => g ≠ group || p.index ≤ taken.stop }

/-- The place with what a group has taken since an earlier place. -/
def record (q : Place) (group : Nat) (since : Place) : Place :=
  { q with
    captures := (group, ⟨since.upTo q, q.index⟩) :: q.captures.filter (·.1 ≠ group) }

/-- Whether a character stands at a side of the place and belongs to a word. -/
def besideWord (ascii : Bool) : Option Char → Bool
  | none => false
  | some c => Kind.word.holds ascii c

/-- Whether a word starts or ends here. -/
def atWordEdge (p : Place) (ascii : Bool) : Bool :=
  besideWord ascii p.before.head? != besideWord ascii p.after.head?

/--
Whether an anchor holds. In an empty text there is neither an edge of a word nor the lack of one.
-/
def satisfies (p : Place) : Anchor → Bool
  | .textStart => p.before.isEmpty
  | .lineStart => p.before.isEmpty || p.before.head? = some '\n'
  | .textEnd => p.after.isEmpty
  | .lastLineEnd => p.after.isEmpty || p.after = ['\n']
  | .lineEnd => p.after.isEmpty || p.after.head? = some '\n'
  | .wordEdge ascii => p.atWordEdge ascii
  | .noWordEdge ascii => !(p.before.isEmpty && p.after.isEmpty) && !p.atWordEdge ascii

end Place

end Abnf.Regex
